import ConstraintScoring.Proofs.Graph.Query
import ConstraintScoring.Proofs.Stream.Again

/-!
# Providers of constraints

A provider makes call after call on a constraint factory, with streams that it was handed before,
and finishes some of these as constraints. `Provided` lists the streams and the constraints of a
factory, each with its query.
-/

namespace ConstraintScoring

variable {V S α β : Type}

/-- The facts of a class; those of a class that cannot be unassigned are included anyway. -/
def DomainModel.sourceQuery (domain : DomainModel V) (type : String) (includeUnassigned : Bool) :
    Query V :=
  .source type (includeUnassigned || (domain.class? type).any (!·.canBeUnassigned))

/-- A call that hands out a stream, with the streams that it takes. -/
inductive StreamCall (V α : Type) where
  | forEach (type : String)
  | forEachIncludingUnassigned (type : String)
  | filter (s : α) (accepts : RowFunction V Bool)
  | map (s : α) (columns : List (RowFunction V V))
  | flattenLast (s : α) (expand : RowFunction V (List V))
  | concat (s t : α)
  | group (s : α) (parts : List (GroupPart V))
  | distinct (s : α)
  | join (s t : α) (joiner : Joiner V)
  | existence (shouldExist : Bool) (s t : α) (joiner : Joiner V)
  | existenceOther (shouldExist includeUnassigned : Bool) (s : α) (type : String)
      (joiner : Joiner V)
  | forEachUniquePair (type : String) (joiner : Joiner V)

namespace StreamCall

def run [Cell V] : StreamCall V Stream → Declaring V S Stream
  | forEach type => ConstraintFactory.forEach type
  | forEachIncludingUnassigned type => ConstraintFactory.forEachIncludingUnassigned type
  | filter s accepts => ConstraintFactory.filter s accepts
  | map s columns => ConstraintFactory.map s columns
  | flattenLast s expand => ConstraintFactory.flattenLast s expand
  | concat s t => ConstraintFactory.concat s t
  | group s parts => ConstraintFactory.group s parts
  | distinct s => ConstraintFactory.distinct s
  | join s t joiner => ConstraintFactory.join s t joiner
  | existence shouldExist s t joiner => ConstraintFactory.existence shouldExist s t joiner
  | existenceOther shouldExist includeUnassigned s type joiner =>
      ConstraintFactory.existenceOther shouldExist includeUnassigned s type joiner
  | forEachUniquePair type joiner => ConstraintFactory.forEachUniquePair type joiner

def operands : StreamCall V α → List α
  | forEach _ | forEachIncludingUnassigned _ | forEachUniquePair _ _ => []
  | filter s _ | map s _ | flattenLast s _ | group s _ | distinct s | existenceOther _ _ s _ _ => [s]
  | concat s t | join s t _ | existence _ s t _ => [s, t]

def mapStreams (g : α → β) : StreamCall V α → StreamCall V β
  | forEach type => forEach type
  | forEachIncludingUnassigned type => forEachIncludingUnassigned type
  | filter s accepts => filter (g s) accepts
  | map s columns => map (g s) columns
  | flattenLast s expand => flattenLast (g s) expand
  | concat s t => concat (g s) (g t)
  | group s parts => group (g s) parts
  | distinct s => distinct (g s)
  | join s t joiner => join (g s) (g t) joiner
  | existence shouldExist s t joiner => existence shouldExist (g s) (g t) joiner
  | existenceOther shouldExist includeUnassigned s type joiner =>
      existenceOther shouldExist includeUnassigned (g s) type joiner
  | forEachUniquePair type joiner => forEachUniquePair type joiner

/-- Pairs that belong together and are in the order of their planning ids. -/
def pairJoiner (type : String) (c : FactClass V) (joiner : Joiner V) : Joiner V :=
  let planningId : RowFunction V V :=
    ⟨some ("planning id of " ++ type), ConstraintFactory.planningIdOf c⟩
  .and joiner (.compare .less planningId planningId)

def columns (width : Nat) : List (GroupPart V) := (List.range width).map .column

/-- The query of a call on streams with known queries. -/
def query [Cell V] (domain : DomainModel V) : StreamCall V (Stream × Query V) → Query V
  | forEach type => domain.sourceQuery type false
  | forEachIncludingUnassigned type => domain.sourceQuery type true
  | filter s accepts => .filter accepts.run s.2
  | map s columns => .map (columns.map (·.run)) s.2
  | flattenLast s expand => .flattenLast (Candidate.expandLast expand) s.2
  | concat s t => .concat s.2 t.2
  | group s parts =>
      .group (GroupPart.keys parts) ((GroupPart.collectors parts).map (·.unnamed)) s.2
  | distinct s => .group (GroupPart.keys (columns s.1.width)) [] s.2
  | join s t joiner => .join joiner.compile s.2 t.2
  | existence shouldExist s t joiner => .exists shouldExist joiner.compile s.2 t.2
  | existenceOther shouldExist includeUnassigned s type joiner =>
      .exists shouldExist joiner.compile s.2 (domain.sourceQuery type includeUnassigned)
  | forEachUniquePair type joiner =>
      let q := domain.sourceQuery type false
      match domain.class? type with
      | some c => .join (pairJoiner type c joiner).compile q q
      | none => q

/-- The functions of a call may go by their names. -/
def Respects (N : Naming V) (domain : DomainModel V) : StreamCall V α → Prop
  | filter _ accepts => accepts.Respects N.test
  | map _ columns => ∀ c ∈ columns, c.Respects N.cell
  | flattenLast _ expand => expand.Respects N.items
  | group _ parts => ∀ p ∈ parts, p.Respects N
  | join _ _ joiner | existence _ _ _ joiner | existenceOther _ _ _ _ joiner => joiner.Respects N
  | forEachUniquePair type joiner =>
      ∀ c, domain.class? type = some c → (pairJoiner type c joiner).Respects N
  | _ => True

/-- All functions of a call go by names. -/
def IsNamed : StreamCall V α → Prop
  | filter _ accepts => accepts.IsNamed
  | map _ columns => ∀ c ∈ columns, c.IsNamed
  | flattenLast _ expand => expand.IsNamed
  | group _ parts => ∀ p ∈ parts, p.IsNamed
  | join _ _ joiner | existence _ _ _ joiner | existenceOther _ _ _ _ joiner
  | forEachUniquePair _ joiner => joiner.IsNamed
  | _ => True

theorem operands_mapStreams (g : α → β) (call : StreamCall V α) :
    (call.mapStreams g).operands = call.operands.map g := by
  cases call <;> rfl

def unknown? (domain : DomainModel V) (type : String) : Option ConfigProblem :=
  match domain.class? type with
  | some _ => none
  | none => some (.unknownClass type)

def misshapen? (parts : List (GroupPart V)) : Option ConfigProblem :=
  match GroupPart.check parts with
  | .ok () => none
  | .error problem => some problem

/-- What is wrong with a call on a factory of its own streams. -/
def problem? (domain : DomainModel V) : StreamCall V Stream → Option ConfigProblem
  | forEach type | forEachIncludingUnassigned type | existenceOther _ _ _ type _
  | forEachUniquePair type _ => unknown? domain type
  | group _ parts => misshapen? parts
  | distinct s => misshapen? (columns s.width : List (GroupPart V))
  | _ => none

/-- Why a call on a factory is refused, if it is. -/
def refusal? (f : ConstraintFactory V S) (call : StreamCall V Stream) : Option ConfigProblem :=
  if call.operands.all (·.factory = f.id) then call.problem? f.domain else some .differentFactories

/-- Streams that are put one behind the other have the same columns. -/
def WellTyped : StreamCall V (Stream × α) → Prop
  | concat s t => s.1.width = t.1.width
  | _ => True

end StreamCall

namespace ConstraintFactory

variable [Cell V] {N : Naming V} {f f₁ f' : ConstraintFactory V S} {s t u : Stream}
  {c : Candidate V} {call : StreamCall V (Stream × Query V)} {q : Query V}

/-- What a call that hands out a stream leads to. -/
structure Made (N : Naming V) (f : ConstraintFactory V S) (call : StreamCall V (Stream × Query V))
    (u : Stream) (f' : ConstraintFactory V S) : Prop where
  id : f'.id = f.id
  domain : f'.domain = f.domain
  grown : GraphBuilder.Grown N (Streamed f.domain) f.graph f'.graph
  complete : f'.graph.Complete
  factory : u.factory = f.id
  handed : Handed f'.graph.declared u
  unfolds : N.Functional → (∀ s ∈ call.operands, Unfolds f.graph.declared s.1.decl s.2) →
    Unfolds f'.graph.declared u.decl (call.query f.domain)
  again : call.IsNamed → Again N f' (call.mapStreams (·.1)).run u

/-- The call is answered. -/
def Answers (N : Naming V) (f : ConstraintFactory V S) (call : StreamCall V (Stream × Query V)) :
    Prop :=
  ∃ u f', (call.mapStreams (·.1)).run.run.run f = (.ok u, f') ∧ Made N f call u f'

theorem Made.whole (h : Made N f call u f') : f'.graph.Whole N := ⟨h.grown.sound, h.complete⟩

namespace Declares

theorem handed (h : Declares N f c u f') : Handed f'.graph.declared u :=
  h.stands.handed h.grown.sound h.coded h.plain

theorem kept (h : Declares N f c u f') (hs : Handed f.graph.declared s) :
    Handed f'.graph.declared s := hs.kept h.grown.kept

theorem unfolds (h : Declares N f c u f') (hN : N.Functional) {qs : List (Query V)}
    (hqs : List.Forall₂ (Unfolds f'.graph.declared) c.key.parents qs)
    (hq : c.operation.query qs = some q) : Unfolds f'.graph.declared u.decl q :=
  h.stands.unfolds hN h.grown.sound h.coded hqs hq

theorem unfolds_one (h : Declares N f c u f') (hN : N.Functional) (hp : c.key.parents = [s.decl])
    {q' : Query V} (hs : Unfolds f.graph.declared s.decl q') (hq : c.operation.query [q'] = some q) :
    Unfolds f'.graph.declared u.decl q :=
  h.unfolds hN (hp ▸ .cons (hs.kept h.grown.kept) .nil) hq

theorem unfolds_two (h : Declares N f c u f') (hN : N.Functional) {l r : DeclId}
    (hb : Bridged f'.graph.declared s t l r) (hp : c.key.parents = [l, r]) {q₁ q₂ : Query V}
    (hs : Unfolds f.graph.declared s.decl q₁) (ht : Unfolds f.graph.declared t.decl q₂)
    (hq : c.operation.query [q₁, q₂] = some q) : Unfolds f'.graph.declared u.decl q := by
  refine h.unfolds hN (hp ▸ .cons ?_ (.cons ?_ .nil)) hq
  · exact .unary hb.left rfl (hs.kept h.grown.kept) rfl
  · exact .unary hb.right rfl (ht.kept h.grown.kept) rfl

theorem made (h : Declares N f c u f') (hq : N.Functional →
      (∀ s ∈ call.operands, Unfolds f.graph.declared s.1.decl s.2) →
      Unfolds f'.graph.declared u.decl (call.query f.domain))
    (ha : call.IsNamed → Again N f' (call.mapStreams (·.1)).run u) : Made N f call u f' :=
  ⟨h.id, h.domain, h.grown, h.complete, h.factory, h.handed, hq, ha⟩

/-- A call on one stream that declares one candidate. -/
theorem made_one {s : Stream × Query V} (h : Declares N f c u f') (hs : s ∈ call.operands)
    (hp : c.key.parents = [s.1.decl]) (hq : c.operation.query [s.2] = some (call.query f.domain))
    (ha : call.IsNamed → Again N f' (call.mapStreams (·.1)).run u) : Made N f call u f' :=
  h.made (fun hN hu => h.unfolds_one hN hp (hu s hs) hq) ha

/-- A call on two streams that declares one candidate behind bridges. -/
theorem made_two {s t : Stream × Query V} (h : Declares N f c u f') (hs : s ∈ call.operands)
    (ht : t ∈ call.operands) {l r : DeclId} (hb : Bridged f'.graph.declared s.1 t.1 l r)
    (hp : c.key.parents = [l, r]) (hq : c.operation.query [s.2, t.2] = some (call.query f.domain))
    (ha : call.IsNamed → Again N f' (call.mapStreams (·.1)).run u) : Made N f call u f' :=
  h.made (fun hN hu => h.unfolds_two hN hb hp (hu s hs) (hu t ht) hq) ha

/-- A call that is made up of two others. -/
theorem made_trans (h : Declares N f c s f₁) {d : Candidate V} (h' : Declares N f₁ d u f')
    (hq : N.Functional → (∀ s ∈ call.operands, Unfolds f.graph.declared s.1.decl s.2) →
      Unfolds f'.graph.declared u.decl (call.query f.domain))
    (ha : call.IsNamed → Again N f' (call.mapStreams (·.1)).run u) : Made N f call u f' :=
  ⟨h'.id.trans h.id, h'.domain.trans h.domain, h.grown.trans (h.domain ▸ h'.grown), h'.complete,
    h'.factory.trans h.id, h'.handed, hq, ha⟩

end Declares

theorem source_unfolds {type : String} {c : FactClass V} (includeUnassigned : Bool)
    (h : f.graph.Whole N) (hc : f.domain.class? type = some c) :
    ∃ u f', (source type includeUnassigned).run.run f = (.ok u, f') ∧
      Declares N f (.source type (includeUnassigned || !c.canBeUnassigned)) u f' ∧
      (N.Functional →
        Unfolds f'.graph.declared u.decl (f.domain.sourceQuery type includeUnassigned)) := by
  obtain ⟨u, f', hrun, hd⟩ := source_run includeUnassigned h hc
  refine ⟨u, f', hrun, hd, fun hN => hd.unfolds hN .nil ?_⟩
  rw [DomainModel.sourceQuery, hc]
  rfl

end ConstraintFactory

namespace StreamCall

open ConstraintFactory

variable [Cell V] {N : Naming V} {f f' : ConstraintFactory V S} {u : Stream}
  {call : StreamCall V (Stream × Query V)}

omit [Cell V] in
theorem unknown?_eq_some {domain : DomainModel V} {type : String} {problem : ConfigProblem}
    (h : unknown? domain type = some problem) :
    domain.class? type = none ∧ problem = .unknownClass type := by
  unfold unknown? at h
  split at h
  · cases h
  · rename_i hnone
    exact ⟨hnone, (Option.some.inj h).symm⟩

omit [Cell V] in
theorem unknown?_eq_none {domain : DomainModel V} {type : String} (h : unknown? domain type = none) :
    ∃ c, domain.class? type = some c := by
  unfold unknown? at h
  split at h
  · rename_i c hc
    exact ⟨c, hc⟩
  · cases h

omit [Cell V] in
theorem misshapen?_eq_some {parts : List (GroupPart V)} {problem : ConfigProblem}
    (h : misshapen? parts = some problem) : GroupPart.check parts = .error problem := by
  unfold misshapen? at h
  split at h
  · cases h
  · rename_i hcheck
    exact hcheck.trans (congrArg Except.error (Option.some.inj h))

omit [Cell V] in
theorem misshapen?_eq_none {parts : List (GroupPart V)} (h : misshapen? parts = none) :
    GroupPart.check parts = .ok () := by
  unfold misshapen? at h
  split at h
  · rename_i hcheck
    exact hcheck
  · cases h

theorem refuses_foreign {call : StreamCall V Stream} {s : Stream} (hs : s ∈ call.operands)
    (hforeign : s.factory ≠ f.id) :
    call.run.run.run f = (.error (.config .differentFactories), f) := by
  have htwo : ∀ {s t : Stream} {x : Declaring V S Stream}, s.factory ≠ f.id ∨ t.factory ≠ f.id →
      (own s >>= fun _ => own t >>= fun _ => x).run.run f =
        (.error (.config .differentFactories), f) := by
    intro s t x h
    by_cases howns : s.factory = f.id
    · exact (own_passes howns).trans (own_refuses (h.resolve_left (not_not_intro howns)))
    · exact own_refuses howns
  cases call with
  | forEach _ | forEachIncludingUnassigned _ | forEachUniquePair _ _ => cases hs
  | filter t _ | map t _ | flattenLast t _ | group t _ | distinct t | existenceOther _ _ t _ _ =>
      obtain rfl := List.mem_singleton.mp hs
      exact own_refuses hforeign
  | concat t u | join t u _ | existence _ t u _ =>
      have hs : s ∈ [t, u] := hs
      rw [List.mem_cons, List.mem_singleton] at hs
      rcases hs with rfl | rfl
      · exact htwo (Or.inl hforeign)
      · exact htwo (Or.inr hforeign)

/-- A call that is refused leaves the factory as it was. -/
theorem refuses {call : StreamCall V Stream} {problem : ConfigProblem}
    (h : call.refusal? f = some problem) : call.run.run.run f = (.error (.config problem), f) := by
  unfold refusal? at h
  split at h
  · rename_i hown
    have hown : ∀ s ∈ call.operands, s.factory = f.id := by simpa using hown
    cases call with
    | forEach type | forEachIncludingUnassigned type | forEachUniquePair type joiner =>
        obtain ⟨hnone, rfl⟩ := unknown?_eq_some h
        exact classOf_refuses hnone
    | existenceOther shouldExist includeUnassigned s type joiner =>
        obtain ⟨hnone, rfl⟩ := unknown?_eq_some h
        refine (own_passes (hown s List.mem_cons_self)).trans ?_
        have hsource : (source type includeUnassigned : Declaring V S Stream).run.run f =
            (.error (.config (.unknownClass type)), f) := classOf_refuses hnone
        rw [Outcome.run_bind, hsource]
    | group s parts => exact group_refuses (hown s List.mem_cons_self) (misshapen?_eq_some h)
    | distinct s => exact group_refuses (hown s List.mem_cons_self) (misshapen?_eq_some h)
    | _ => cases h
  · rename_i hforeign
    obtain rfl := Option.some.inj h
    obtain ⟨s, hs, hs'⟩ : ∃ s ∈ call.operands, s.factory ≠ f.id := by simpa using hforeign
    exact refuses_foreign hs hs'

omit [Cell V] in
theorem columns_respect (width : Nat) : ∀ p ∈ columns width, p.Respects N := by
  intro p hp
  obtain ⟨i, -, rfl⟩ := List.mem_map.mp hp
  trivial

omit [Cell V] in
theorem columns_named (width : Nat) : ∀ p ∈ (columns width : List (GroupPart V)), p.IsNamed := by
  intro p hp
  obtain ⟨i, -, rfl⟩ := List.mem_map.mp hp
  trivial

omit [Cell V] in
theorem collectors_columns (width : Nat) :
    GroupPart.collectors (columns width : List (GroupPart V)) = [] := by
  unfold columns
  induction List.range width with
  | nil => rfl
  | cons i is ih => exact ih

/-- The other stream is one of facts, which the call declares itself. -/
theorem answers_existenceOther {shouldExist includeUnassigned : Bool} {s : Stream × Query V}
    {type : String} {joiner : Joiner V} {c : FactClass V} (h : f.graph.Whole N)
    (hs : Handed f.graph.declared s.1) (hown : s.1.factory = f.id) (hr : joiner.Respects N)
    (hc : f.domain.class? type = some c) :
    Answers N f (.existenceOther shouldExist includeUnassigned s type joiner) := by
  obtain ⟨t, f₁, hsource, hd, hq⟩ := source_unfolds includeUnassigned h hc
  have howns := hown.trans hd.id.symm
  have hownt := hd.factory.trans hd.id.symm
  have hhanded := hd.kept hs
  obtain ⟨u, f', l, r, n, hrun, hb, hd'⟩ :=
    existence_run hd.whole hhanded hd.handed howns hownt hr
  refine ⟨u, f', (own_passes hown).trans (Outcome.run_bind_eq_ok.mpr ⟨t, f₁, hsource, hrun⟩),
    hd.made_trans hd' (fun hN hu => ?_) fun hn => ?_⟩
  · have hunfolds := hu s List.mem_cons_self
    exact hd'.unfolds_two hN hb rfl (hunfolds.kept hd.grown.kept) (hq hN) rfl
  · have hother := (hd.source_again hc).later hd'.later
    exact .own (howns.trans hd'.id.symm)
      (hother.bind (hd'.existence_again hhanded hd.handed howns hownt hn hb))

/-- A pair's two streams are of the same facts, and are declared one after the other. -/
theorem answers_forEachUniquePair {type : String} {joiner : Joiner V} {c : FactClass V}
    (h : f.graph.Whole N) (hc : f.domain.class? type = some c)
    (hr : (pairJoiner type c joiner).Respects N) :
    Answers N f (.forEachUniquePair type joiner) := by
  obtain ⟨l, f₁, hl, hdl, hql⟩ := source_unfolds false h hc
  have hc₁ : f₁.domain.class? type = some c := hdl.domain ▸ hc
  obtain ⟨r, f₂, hr', hdr, hqr⟩ := source_unfolds false hdl.whole hc₁
  have hid : f₂.id = f.id := hdr.id.trans hdl.id
  have hdomain := hdr.domain.trans hdl.domain
  have hownl := hdl.factory.trans hid.symm
  have hownr := hdr.factory.trans hdr.id.symm
  have hhanded := hdr.kept hdl.handed
  obtain ⟨u, f', l', r', n, hrun, hb, hd⟩ := join_run hdr.whole hhanded hdr.handed hownl hownr hr
  refine ⟨u, f', (classOf_passes hc).trans (Outcome.run_bind_eq_ok.mpr ⟨l, f₁, hl,
    Outcome.run_bind_eq_ok.mpr ⟨r, f₂, hr', hrun⟩⟩), hd.id.trans hid, hd.domain.trans hdomain,
    (hdl.grown.trans (hdl.domain ▸ hdr.grown)).trans (hdomain ▸ hd.grown), hd.complete,
    hd.factory.trans hid, hd.handed, fun hN _ => ?_, fun hn => ?_⟩
  · rw [hdl.domain] at hqr
    simp only [query, hc]
    exact hd.unfolds_two hN hb rfl ((hql hN).kept hdr.grown.kept) (hqr hN) rfl
  · have hleft := (hdl.source_again hc).later (hdr.later.trans hd.later)
    have hright := (hdr.source_again hc₁).later hd.later
    have hnamed : (pairJoiner type c joiner).IsNamed := ⟨hn, rfl, rfl⟩
    have hjoined := hd.join_again hhanded hdr.handed hownl hownr hnamed hb
    exact .classOf (hd.domain.trans hdomain ▸ hc) (hleft.bind (hright.bind hjoined))

section Operands

variable {s t : Stream × Query V} {accepts : RowFunction V Bool} {cells : List (RowFunction V V)}
  {expand : RowFunction V (List V)} {parts : List (GroupPart V)} {joiner : Joiner V}

theorem answers_filter (h : f.graph.Whole N) (hs : Handed f.graph.declared s.1)
    (hown : s.1.factory = f.id) (hr : accepts.Respects N.test) : Answers N f (.filter s accepts) := by
  obtain ⟨u, f', hrun, hd⟩ := filter_run h hs hown hr
  exact ⟨u, f', hrun, hd.made_one List.mem_cons_self rfl rfl fun hn => hd.filter_again hown hn⟩

theorem answers_map (h : f.graph.Whole N) (hs : Handed f.graph.declared s.1)
    (hown : s.1.factory = f.id) (hr : ∀ c ∈ cells, c.Respects N.cell) :
    Answers N f (.map s cells) := by
  obtain ⟨u, f', hrun, hd⟩ := map_run h hs hown hr
  exact ⟨u, f', hrun, hd.made_one List.mem_cons_self rfl rfl fun hn => hd.map_again hown hn⟩

theorem answers_flattenLast (h : f.graph.Whole N) (hs : Handed f.graph.declared s.1)
    (hown : s.1.factory = f.id) (hr : expand.Respects N.items) :
    Answers N f (.flattenLast s expand) := by
  obtain ⟨u, f', hrun, hd⟩ := flattenLast_run h hs hown hr
  exact ⟨u, f', hrun,
    hd.made_one List.mem_cons_self rfl rfl fun hn => hd.flattenLast_again hown hn⟩

theorem answers_group (h : f.graph.Whole N) (hs : Handed f.graph.declared s.1)
    (hown : s.1.factory = f.id) (hr : ∀ p ∈ parts, p.Respects N)
    (hcheck : GroupPart.check parts = .ok ()) : Answers N f (.group s parts) := by
  obtain ⟨u, f', hrun, hd⟩ := group_run h hs hown hr hcheck
  exact ⟨u, f', hrun,
    hd.made_one List.mem_cons_self rfl rfl fun hn => hd.group_again hown hcheck hn⟩

/-- Removing duplicates groups by all columns and collects nothing. -/
theorem answers_distinct (h : f.graph.Whole N) (hs : Handed f.graph.declared s.1)
    (hown : s.1.factory = f.id)
    (hcheck : GroupPart.check (columns s.1.width : List (GroupPart V)) = .ok ()) :
    Answers N f (.distinct s) := by
  obtain ⟨u, f', hrun, hd⟩ := group_run h hs hown (columns_respect s.1.width) hcheck
  refine ⟨u, f', hrun, hd.made_one List.mem_cons_self rfl ?_ fun _ =>
    hd.group_again hown hcheck (columns_named s.1.width)⟩
  change some (Query.group (GroupPart.keys (columns s.1.width))
    ((GroupPart.collectors (columns s.1.width)).map (·.unnamed)) s.2) = _
  rw [collectors_columns]
  rfl

variable (h : f.graph.Whole N) (hs : Handed f.graph.declared s.1)
  (ht : Handed f.graph.declared t.1) (howns : s.1.factory = f.id) (hownt : t.1.factory = f.id)

include h hs ht howns hownt

theorem answers_concat (hwidth : s.1.width = t.1.width) : Answers N f (.concat s t) := by
  obtain ⟨u, f', l, r, hrun, hb, hd⟩ := concat_run h hs ht howns hownt hwidth
  exact ⟨u, f', hrun, hd.made_two List.mem_cons_self (List.mem_cons_of_mem s List.mem_cons_self) hb
    rfl rfl fun _ => hd.concat_again hs ht howns hownt hb⟩

theorem answers_join (hr : joiner.Respects N) : Answers N f (.join s t joiner) := by
  obtain ⟨u, f', l, r, n, hrun, hb, hd⟩ := join_run h hs ht howns hownt hr
  exact ⟨u, f', hrun, hd.made_two List.mem_cons_self (List.mem_cons_of_mem s List.mem_cons_self) hb
    rfl rfl fun hn => hd.join_again hs ht howns hownt hn hb⟩

theorem answers_existence {shouldExist : Bool} (hr : joiner.Respects N) :
    Answers N f (.existence shouldExist s t joiner) := by
  obtain ⟨u, f', l, r, n, hrun, hb, hd⟩ := existence_run h hs ht howns hownt hr
  exact ⟨u, f', hrun, hd.made_two List.mem_cons_self (List.mem_cons_of_mem s List.mem_cons_self) hb
    rfl rfl fun hn => hd.existence_again hs ht howns hownt hn hb⟩

end Operands

/-- A call that is not refused keeps the graph of its factory sound and hands out a stream of what
it asks for. -/
theorem made (h : f.graph.Whole N) (hs : ∀ s ∈ call.operands, Handed f.graph.declared s.1)
    (hr : call.Respects N f.domain) (ht : call.WellTyped)
    (hnone : (call.mapStreams (·.1)).refusal? f = none) : Answers N f call := by
  unfold refusal? at hnone
  split at hnone
  swap
  · cases hnone
  rename_i hown
  have hown : ∀ s ∈ call.operands, s.1.factory = f.id := by
    rw [operands_mapStreams] at hown
    simpa using hown
  have hgiven : ∀ {s : Stream × Query V}, s ∈ call.operands →
      Handed f.graph.declared s.1 ∧ s.1.factory = f.id := fun hmem => ⟨hs _ hmem, hown _ hmem⟩
  cases call with
  | forEach type | forEachIncludingUnassigned type =>
      obtain ⟨c, hc⟩ := unknown?_eq_none hnone
      obtain ⟨u, f', hrun, hd, hq⟩ := source_unfolds _ h hc
      exact ⟨u, f', hrun, hd.made (fun hN _ => hq hN) fun _ => hd.source_again hc⟩
  | forEachUniquePair type joiner =>
      obtain ⟨c, hc⟩ := unknown?_eq_none hnone
      exact answers_forEachUniquePair h hc (hr c hc)
  | filter s accepts =>
      obtain ⟨hs, hown⟩ := hgiven List.mem_cons_self
      exact answers_filter h hs hown hr
  | map s columns =>
      obtain ⟨hs, hown⟩ := hgiven List.mem_cons_self
      exact answers_map h hs hown hr
  | flattenLast s expand =>
      obtain ⟨hs, hown⟩ := hgiven List.mem_cons_self
      exact answers_flattenLast h hs hown hr
  | group s parts =>
      obtain ⟨hs, hown⟩ := hgiven List.mem_cons_self
      exact answers_group h hs hown hr (misshapen?_eq_none hnone)
  | distinct s =>
      obtain ⟨hs, hown⟩ := hgiven List.mem_cons_self
      exact answers_distinct h hs hown (misshapen?_eq_none hnone)
  | existenceOther shouldExist includeUnassigned s type joiner =>
      obtain ⟨hs, hown⟩ := hgiven List.mem_cons_self
      obtain ⟨c, hc⟩ := unknown?_eq_none hnone
      exact answers_existenceOther h hs hown hr hc
  | concat s t =>
      obtain ⟨hs, howns⟩ := hgiven List.mem_cons_self
      obtain ⟨hs', hownt⟩ := hgiven (List.mem_cons_of_mem s List.mem_cons_self)
      exact answers_concat h hs hs' howns hownt ht
  | join s t joiner =>
      obtain ⟨hs, howns⟩ := hgiven List.mem_cons_self
      obtain ⟨ht, hownt⟩ := hgiven (List.mem_cons_of_mem s List.mem_cons_self)
      exact answers_join h hs ht howns hownt hr
  | existence shouldExist s t joiner =>
      obtain ⟨hs, howns⟩ := hgiven List.mem_cons_self
      obtain ⟨ht, hownt⟩ := hgiven (List.mem_cons_of_mem s List.mem_cons_self)
      exact answers_existence h hs ht howns hownt hr

/-- What a call that was answered leads to. -/
theorem made_of_run (h : f.graph.Whole N) (hs : ∀ s ∈ call.operands, Handed f.graph.declared s.1)
    (hr : call.Respects N f.domain) (ht : call.WellTyped)
    (hrun : (call.mapStreams (·.1)).run.run.run f = (.ok u, f')) : Made N f call u f' := by
  cases hrefusal : (call.mapStreams (·.1)).refusal? f with
  | some problem =>
      rw [refuses hrefusal] at hrun
      cases (Prod.mk.inj hrun).1
  | none =>
      obtain ⟨u', f'', hrun', hmade⟩ := made h hs hr ht hrefusal
      obtain ⟨rfl, rfl⟩ := Outcome.answer_inj (hrun'.symm.trans hrun)
      exact hmade

end StreamCall

/-- A constraint that a provider has finished, with the query of its stream. -/
structure Written (V S : Type) where
  constraint : Constraint
  query : Query V
  weight : S
  terms : ConstraintTerms V S

variable [Cell V] {N : Naming V} {id : Nat} {domain : DomainModel V}
  {f : ConstraintFactory V S} {streams : List (Stream × Query V)} {written : List (Written V S)}

/-- A factory after any calls on it, with the streams that it handed out and the constraints that
were finished. A call that fails changes nothing and may be followed by others. -/
inductive Provided (N : Naming V) (id : Nat) (domain : DomainModel V) :
    ConstraintFactory V S → List (Stream × Query V) → List (Written V S) → Prop where
  | new : Provided N id domain (.new id domain) [] []
  | stream {f f' streams written} {call : StreamCall V (Stream × Query V)} {u} :
      Provided N id domain f streams written → (∀ s ∈ call.operands, s ∈ streams) →
      call.Respects N domain → call.WellTyped → (call.mapStreams (·.1)).run.run.run f = (.ok u, f') →
      Provided N id domain f' ((u, call.query domain) :: streams) written
  | constraint {f f' streams written s ref weight terms c} :
      Provided N id domain f streams written → s ∈ streams →
      (ConstraintFactory.constraint s.1 ref weight terms).run.run f = (.ok c, f') →
      Provided N id domain f' streams (written ++ [⟨c, s.2, weight, terms⟩])

/-- The graph has a finished constraint under its index. -/
structure Recorded (N : Naming V) (D : Declared V) (i : Nat) (w : Written V S)
    (k : ConstraintDef V S) : Prop where
  index : w.constraint.index = i
  ref : k.ref = w.constraint.ref
  impact : k.impact = w.terms.impact
  weight : k.weight = w.weight
  weigher : k.weigher = w.terms.weigher
  unfolds : N.Functional → Unfolds D k.scoreDecl w.query

omit [Cell V] in
theorem Recorded.kept {D D' : Declared V} {i : Nat} {w : Written V S} {k : ConstraintDef V S}
    (h : Recorded N D i w k) (hd : D.Extends D') : Recorded N D' i w k :=
  ⟨h.index, h.ref, h.impact, h.weight, h.weigher, fun hN => (h.unfolds hN).kept hd⟩

/-- All sources are of classes that the domain has. -/
def DomainModel.Covers (domain : DomainModel V) (D : Declared V) : Prop :=
  ∀ id c type includeUnassigned, D id = some c → c.operation = .source type includeUnassigned →
    ∃ cl, domain.class? type = some cl

namespace Provided

structure Sound (N : Naming V) (id : Nat) (domain : DomainModel V) (f : ConstraintFactory V S)
    (streams : List (Stream × Query V)) (written : List (Written V S)) : Prop where
  id : f.id = id
  domain : f.domain = domain
  graph : f.graph.Whole N
  ended : f.graph.Ended
  covers : f.domain.Covers f.graph.declared
  handed : ∀ s ∈ streams, Handed f.graph.declared s.1
  unfolds : N.Functional → ∀ s ∈ streams, Unfolds f.graph.declared s.1.decl s.2
  size : f.graph.constraints.size = written.length
  recorded : ∀ i w, written[i]? = some w →
    ∃ k, f.graph.constraints[i]? = some k ∧ Recorded N f.graph.declared i w k

namespace Sound

theorem new : Sound N id domain (.new id domain : ConstraintFactory V S) [] [] := by
  have hnone : ∀ d, (GraphBuilder.empty : GraphBuilder V S).declared d = none := fun d => rfl
  refine ⟨rfl, rfl, ⟨⟨⟨fun d c hc => ?_, fun d c hc => ?_, fun d c hc => ?_, fun d c hc => ?_⟩,
    fun k d => ?_, fun d c hc => ?_, fun d c hc => ?_, fun d c b hc => ?_, fun d c n hc => ?_⟩,
    fun d c hc => ?_⟩,
    ⟨fun i k hk => ?_, fun d c i hc => ?_⟩, fun d c _ _ hc => ?_, fun s hs => ?_, fun _ s hs => ?_,
    rfl, fun i w hw => ?_⟩
  · cases (hnone d).symm.trans hc
  · cases (hnone d).symm.trans hc
  · cases hc
  · cases hc
  · refine iff_of_false (fun hk => ?_) fun ⟨c, hc, _⟩ => ?_
    · cases hk
    · cases (hnone d).symm.trans hc
  · cases (hnone d).symm.trans hc
  · cases (hnone d).symm.trans hc
  · cases hc
  · cases (hnone d).symm.trans hc
  · cases hc
  · cases hk
  · cases (hnone d).symm.trans hc
  · cases (hnone d).symm.trans hc
  · cases hs
  · cases hs
  · cases hw

theorem stream (h : Sound N id domain f streams written) {f' : ConstraintFactory V S}
    {call : StreamCall V (Stream × Query V)} {u : Stream} (hs : ∀ s ∈ call.operands, s ∈ streams)
    (hr : call.Respects N domain) (ht : call.WellTyped)
    (hrun : (call.mapStreams (·.1)).run.run.run f = (.ok u, f')) :
    Sound N id domain f' ((u, call.query domain) :: streams) written := by
  have hmade := StreamCall.made_of_run h.graph (fun s hm => h.handed s (hs s hm)) (h.domain ▸ hr) ht hrun
  refine ⟨hmade.id.trans h.id, hmade.domain.trans h.domain, hmade.whole,
    h.ended.grown hmade.grown fun _ hc => hc.ne_score, ?_, fun s hm => ?_, fun hN s hm => ?_, ?_,
    fun i w hw => ?_⟩
  · rw [hmade.domain]
    intro id c type includeUnassigned hc hop
    rcases hmade.grown.made id c hc with hc | hc
    · exact h.covers id c type includeUnassigned hc hop
    · unfold ConstraintFactory.Streamed at hc
      rw [hop] at hc
      exact hc
  · rcases List.mem_cons.mp hm with rfl | hm
    · exact hmade.handed
    · exact (h.handed s hm).kept hmade.grown.kept
  · rcases List.mem_cons.mp hm with rfl | hm
    · rw [← h.domain]
      exact hmade.unfolds hN fun s hm => h.unfolds hN s (hs s hm)
    · exact (h.unfolds hN s hm).kept hmade.grown.kept
  · rw [hmade.grown.constraints]
    exact h.size
  · obtain ⟨k, hk, hrecorded⟩ := h.recorded i w hw
    exact ⟨k, hmade.grown.constraints ▸ hk, hrecorded.kept hmade.grown.kept⟩

theorem constraint (h : Sound N id domain f streams written) {f' : ConstraintFactory V S}
    {s : Stream × Query V} {ref : ConstraintRef} {weight : S} {terms : ConstraintTerms V S}
    {c : Constraint} (hs : s ∈ streams)
    (hrun : (ConstraintFactory.constraint s.1 ref weight terms).run.run f = (.ok c, f')) :
    Sound N id domain f' streams (written ++ [⟨c, s.2, weight, terms⟩]) := by
  obtain ⟨index, g, hadd, rfl, rfl⟩ := ConstraintFactory.constraint_of_run hrun
  obtain ⟨hsound, hended, hkept, hnumber, hcompletes, ⟨decl, hconstraints, hscore⟩, hnew⟩ :=
    GraphBuilder.registered_of_run h.graph.toSound h.ended (h.handed s hs).plain hadd
  have hlast : index = written.length := hnumber.trans h.size
  refine ⟨h.id, h.domain, ⟨hsound, h.graph.complete.completes hcompletes⟩, hended,
    fun j d type u hd hop => ?_,
    fun t ht => (h.handed t ht).kept hkept, fun hN t ht => (h.unfolds hN t ht).kept hkept, ?_,
    fun i w hw => ?_⟩
  · rcases hnew j d hd with hd | rfl
    · exact h.covers j d type u hd hop
    · cases hop
  · simp only [hconstraints, Array.size_push, h.size, List.length_append, List.length_singleton]
  · simp only [hconstraints, Array.getElem?_push, h.size]
    rw [List.getElem?_append] at hw
    split at hw
    · rename_i hi
      obtain ⟨k, hk, hrecorded⟩ := h.recorded i w hw
      rw [if_neg (Nat.ne_of_lt hi)]
      exact ⟨k, hk, hrecorded.kept hkept⟩
    · rename_i hi
      obtain ⟨hi', rfl⟩ : i = written.length ∧ ⟨⟨f.id, index, ref⟩, s.2, weight, terms⟩ = w := by
        rw [List.getElem?_singleton] at hw
        split at hw
        · exact ⟨by omega, Option.some.inj hw⟩
        · cases hw
      rw [if_pos hi']
      exact ⟨_, rfl, hlast.trans hi'.symm, rfl, rfl, rfl, rfl,
        fun hN => .unary hscore rfl ((h.unfolds hN s hs).kept hkept) rfl⟩

end Sound

theorem sound (h : Provided N id domain f streams written) :
    Sound N id domain f streams written := by
  induction h with
  | new => exact .new
  | stream _ hs hr ht hrun ih => exact ih.stream hs hr ht hrun
  | constraint _ hs hrun ih => exact ih.constraint hs hrun

end Provided

end ConstraintScoring
