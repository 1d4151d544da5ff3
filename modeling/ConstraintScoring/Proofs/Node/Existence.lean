import ConstraintScoring.Proofs.Node.Life
import ConstraintScoring.Proofs.Node.Rows

/-!
# The counts of an existence

The entry of a left tuple counts the right tuples matched with it, whatever the order of the events.
An event of another tuple changes the output of an entry only if the count of the entry leaves or
reaches zero.
-/

namespace ConstraintScoring

namespace LeftEntry

/-- The count may have grown, and the output is another only if it was zero. -/
def Rises (entry entry' : LeftEntry) : Prop :=
  entry'.output = entry.output ∧ entry.count ≤ entry'.count ∨ entry.count = 0 ∧ 0 < entry'.count

/-- The count may have shrunk, and the output is another only if it is zero now. -/
def Falls (entry entry' : LeftEntry) : Prop :=
  entry'.output = entry.output ∧ entry'.count ≤ entry.count ∨ 0 < entry.count ∧ entry'.count = 0

/-- The output is the same, or the count has crossed between zero and positive. -/
def Steady (entry entry' : LeftEntry) : Prop :=
  entry'.output = entry.output ∨ entry.count = 0 ∧ 0 < entry'.count ∨
    0 < entry.count ∧ entry'.count = 0

variable {a b c : LeftEntry}

theorem Rises.trans (h : a.Rises b) (h' : b.Rises c) : a.Rises c := by
  rcases h with ⟨hab, hle⟩ | ⟨ha, hb⟩
  · rcases h' with ⟨hbc, hle'⟩ | ⟨hb, hc⟩
    · exact Or.inl ⟨hbc.trans hab, hle.trans hle'⟩
    · exact Or.inr ⟨Nat.le_zero.mp (hb ▸ hle), hc⟩
  · refine Or.inr ⟨ha, h'.elim (fun hbc => ?_) And.right⟩
    exact Nat.lt_of_lt_of_le hb hbc.2

theorem Falls.trans (h : a.Falls b) (h' : b.Falls c) : a.Falls c := by
  rcases h with ⟨hab, hle⟩ | ⟨ha, hb⟩
  · rcases h' with ⟨hbc, hle'⟩ | ⟨hb, hc⟩
    · exact Or.inl ⟨hbc.trans hab, hle'.trans hle⟩
    · exact Or.inr ⟨Nat.lt_of_lt_of_le hb hle, hc⟩
  · refine Or.inr ⟨ha, h'.elim (fun hbc => ?_) And.right⟩
    exact Nat.le_zero.mp (hb ▸ hbc.2)

theorem Rises.steady (h : a.Rises b) : a.Steady b := h.imp And.left Or.inl

theorem Falls.steady (h : a.Falls b) : a.Steady b := h.imp And.left Or.inr

end LeftEntry

namespace ExistsNode

variable {V : Type}

/-- Every entry is still there, those of the tuples in `ls` changed as `R` says at most and all
others not at all. -/
def Changes (R : LeftEntry → LeftEntry → Prop) (ls : List TupleId) (n n' : ExistsNode V) : Prop :=
  ∀ l entry, n.lefts.get? l = some entry → ∃ entry', n'.lefts.get? l = some entry' ∧
    (entry' = entry ∨ l ∈ ls ∧ R entry entry')

section Changes

variable {R : LeftEntry → LeftEntry → Prop} {ls ls' : List TupleId} {n n' n'' : ExistsNode V}
  {s : Staging V} {l r : TupleId}

theorem Changes.refl : Changes R ls n n := fun _ entry hl => ⟨entry, hl, Or.inl rfl⟩

theorem Changes.mono (h : Changes R ls n n') (hls : ∀ l ∈ ls, l ∈ ls') : Changes R ls' n n' := by
  intro l entry hl
  obtain ⟨entry', hl', hchange⟩ := h l entry hl
  exact ⟨entry', hl', hchange.imp id (And.imp (hls l) id)⟩

theorem Changes.trans (h : Changes R ls n n') (h' : Changes R ls n' n'')
    (hR : ∀ a b c, R a b → R b c → R a c) : Changes R ls n n'' := by
  intro l entry hl
  obtain ⟨entry', hl', hchange⟩ := h l entry hl
  obtain ⟨entry'', hl'', hchange'⟩ := h' l entry' hl'
  refine ⟨entry'', hl'', ?_⟩
  rcases hchange with rfl | ⟨hmem, hRel⟩
  · exact hchange'
  · refine Or.inr ⟨hmem, ?_⟩
    rcases hchange' with rfl | ⟨-, hRel'⟩
    · exact hRel
    · exact hR _ _ _ hRel hRel'

theorem Changes.cons (h : Changes R [l] n n') (h' : Changes R ls n' n'')
    (hR : ∀ a b c, R a b → R b c → R a c) : Changes R (l :: ls) n n'' :=
  (h.mono (by simp)).trans (h'.mono fun _ => List.mem_cons_of_mem l) hR

theorem Changes.of_withEntry {entry entry' : LeftEntry} (hl : n.lefts.get? l = some entry)
    (hR : R entry entry') : Changes R [l] n (n.withEntry l entry') := by
  intro x e hx
  rw [get?_withEntry]
  by_cases hlx : l = x
  · subst hlx
    obtain rfl := Option.some.inj (hl.symm.trans hx)
    exact ⟨entry', if_pos rfl, Or.inr ⟨List.mem_singleton_self l, hR⟩⟩
  · exact ⟨e, (if_neg hlx).trans hx, Or.inl rfl⟩

/-- Looking at an output again changes at most the output of the entry. -/
theorem refreshOutput_changes (n : ExistsNode V) (l : TupleId) (rowChanged : Bool) :
    (n.refreshOutput l rowChanged).Ensures s
      (fun n' _ => n.Changes (fun entry entry' => entry'.count = entry.count) [l] n')
      fun _ => True := by
  unfold refreshOutput
  cases hl : n.lefts.get? l with
  | none => exact .of_pure Changes.refl
  | some entry =>
      dsimp only
      cases entry.output with
      | some out =>
          cases (entry.count != 0) == n.shouldExist with
          | true =>
              dsimp only
              split
              · exact .bind_any fun _ _ => .bind_any fun _ _ => .of_pure Changes.refl
              · exact .of_pure Changes.refl
          | false => exact .bind_any fun _ _ => .of_pure (Changes.of_withEntry hl rfl)
      | none =>
          cases (entry.count != 0) == n.shouldExist with
          | true =>
              exact .bind_any fun _ _ => .bind_any fun _ _ => .of_pure (Changes.of_withEntry hl rfl)
          | false => exact .of_pure Changes.refl

/-- Replacing an entry and looking at its output if the count crosses zero. -/
theorem reentry_changes {entry : LeftEntry} (entry' : LeftEntry) {p : Prop} [Decidable p]
    (hl : n.lefts.get? l = some entry) (hR : R entry entry')
    (hcross : p → ∀ e : LeftEntry, e.count = entry'.count → R entry e) :
    (if p then (n.withEntry l entry').refreshOutput l false
      else pure (n.withEntry l entry')).Ensures s (fun n' _ => n.Changes R [l] n')
      fun _ => True := by
  split
  · rename_i hp
    refine (refreshOutput_changes (n.withEntry l entry') l false).mono ?_ fun _ hf => hf
    intro n' _ h x e hx
    by_cases hlx : l = x
    · subst hlx
      obtain rfl := Option.some.inj (hl.symm.trans hx)
      obtain ⟨e', hx', hchange⟩ := h l entry' (by rw [get?_withEntry, if_pos rfl])
      have hcount : e'.count = entry'.count := hchange.elim (congrArg LeftEntry.count) And.right
      exact ⟨e', hx', Or.inr ⟨List.mem_singleton_self l, hcross hp e' hcount⟩⟩
    · obtain ⟨e', hx', hchange⟩ := h x e (by rw [get?_withEntry, if_neg hlx, hx])
      refine ⟨e', hx', Or.inl (hchange.resolve_right fun hmem => hlx ?_)⟩
      exact (List.mem_singleton.mp hmem.1).symm
  · exact .of_pure (Changes.of_withEntry hl hR)

theorem attach_changes (n : ExistsNode V) (l r : TupleId) :
    (n.attach l r).Ensures s (fun n' _ => n.Changes LeftEntry.Rises [l] n') fun _ => True := by
  unfold attach
  cases hl : n.lefts.get? l with
  | none => exact .of_pure Changes.refl
  | some entry =>
      apply reentry_changes _ hl
      · exact Or.inl ⟨rfl, Nat.le_succ _⟩
      · intro hone e he
        exact Or.inr ⟨Nat.succ.inj hone, he ▸ Nat.succ_pos _⟩

theorem detach_changes (n : ExistsNode V) (l r : TupleId) :
    (n.detach l r).Ensures s (fun n' _ => n.Changes LeftEntry.Falls [l] n') fun _ => True := by
  unfold detach
  cases hl : n.lefts.get? l with
  | none => exact .of_pure Changes.refl
  | some entry =>
      dsimp only
      split
      · trivial
      · rename_i hpos
        apply reentry_changes _ hl
        · exact Or.inl ⟨rfl, Nat.sub_le _ _⟩
        · intro hzero e he
          exact Or.inr ⟨Nat.pos_of_ne_zero hpos, he.trans hzero⟩

theorem attachAll_changes (r : TupleId) (ls : List TupleId) :
    ∀ (n : ExistsNode V) {s : Staging V}, (attachAll r n ls).Ensures s
      (fun n' _ => n.Changes LeftEntry.Rises ls n') fun _ => True := by
  induction ls with
  | nil => exact fun n _ => .of_pure Changes.refl
  | cons l ls ih =>
      intro n s
      refine .of_bind ((attach_changes n l r).mono (fun n₁ s₁ h₁ => ?_) fun _ hf => hf)
      refine (ih n₁).mono (fun n₂ s₂ h₂ => ?_) fun _ hf => hf
      exact h₁.cons h₂ fun _ _ _ => LeftEntry.Rises.trans

theorem detachAll_changes (r : TupleId) (ls : List TupleId) :
    ∀ (n : ExistsNode V) {s : Staging V}, (detachAll r n ls).Ensures s
      (fun n' _ => n.Changes LeftEntry.Falls ls n') fun _ => True := by
  induction ls with
  | nil => exact fun n _ => .of_pure Changes.refl
  | cons l ls ih =>
      intro n s
      refine .of_bind ((detach_changes n l r).mono (fun n₁ s₁ h₁ => ?_) fun _ hf => hf)
      refine (ih n₁).mono (fun n₂ s₂ h₂ => ?_) fun _ hf => hf
      exact h₁.cons h₂ fun _ _ _ => LeftEntry.Falls.trans

end Changes

variable [Cell V]

/-- An event of `t` on a side changes the output of another left tuple only if the count of its
entry crosses between zero and positive. -/
def Steady (n : ExistsNode V) (side : Side) (t : TupleId) (n' : ExistsNode V) : Prop :=
  ∀ l entry, n.lefts.get? l = some entry → ¬(side = .left ∧ l = t) →
    ∃ entry', n'.lefts.get? l = some entry' ∧ entry.Steady entry'

section Events

variable {n : ExistsNode V} {s : Staging V} {side : Side} {e : Event} {l r t : TupleId}

omit [Cell V] in
theorem Changes.steady {R : LeftEntry → LeftEntry → Prop} {ls : List TupleId}
    {n' : ExistsNode V} (h : Changes R ls n n') (hR : ∀ a b, R a b → a.Steady b) :
    n.Steady side t n' := by
  intro x entry hx _
  obtain ⟨entry', hx', hchange⟩ := h x entry hx
  refine ⟨entry', hx', ?_⟩
  rcases hchange with rfl | ⟨-, hchange⟩
  · exact Or.inl rfl
  · exact hR _ _ hchange

theorem countLeft_steady (n : ExistsNode V) (l : TupleId) (output : Option TupleId)
    (rowChanged : Bool) : (n.countLeft l output rowChanged).Ensures s
      (fun n' _ => n.Steady .left l n') fun _ => True := by
  refine .bind_any fun row _ => .bind_any fun k _ => .bind_any fun matched _ => ?_
  refine (refreshOutput_changes _ l rowChanged).mono (fun n' _ h x entry hx hne => ?_)
    fun _ hf => hf
  have hxl : l ≠ x := fun hlx => hne ⟨rfl, hlx.symm⟩
  obtain ⟨entry', hx', hchange⟩ := h x entry (by simp [Table.get?_insert, hxl, hx])
  refine ⟨entry', hx', Or.inl ?_⟩
  rw [hchange.resolve_right fun hmem => hxl (List.mem_singleton.mp hmem.1).symm]

theorem forgetLeft_steady (hd : n.lefts.Distinct) (l : TupleId) :
    ∀ x, x ≠ l → (n.forgetLeft l).1.lefts.get? x = n.lefts.get? x := by
  intro x hx
  unfold forgetLeft
  split
  · rfl
  · exact (hd.get?_erase l x).trans (if_neg (by simpa using Ne.symm hx))

theorem onLeft_steady (hd : n.lefts.Distinct) (e : Event) (l : TupleId) :
    (n.onLeft e l).Ensures s (fun n' _ => n.Steady .left l n') fun _ => True := by
  have hforget := forgetLeft_steady hd l
  have hforgot : n.Steady .left l (n.forgetLeft l).1 := fun x entry hx hne =>
    ⟨entry, (hforget x fun hxl => hne ⟨rfl, hxl⟩).trans hx, Or.inl rfl⟩
  cases e with
  | insert => exact countLeft_steady n l none false
  | update =>
      refine (countLeft_steady (n.forgetLeft l).1 l (n.forgetLeft l).2 true).mono
        (fun n' _ h x entry hx hne => ?_) fun _ hf => hf
      exact h x entry ((hforget x fun hxl => hne ⟨rfl, hxl⟩).trans hx) hne
  | retract =>
      cases hout : (n.forgetLeft l).2 with
      | none =>
          rw [onLeft_retract_of_none hout]
          exact .of_pure hforgot
      | some out =>
          rw [onLeft_retract_of_some hout]
          exact .bind_any fun _ _ => .of_pure hforgot

theorem onRight_steady (n : ExistsNode V) (e : Event) (r : TupleId) :
    (n.onRight e r).Ensures s (fun n' _ => n.Steady .right r n') fun _ => True := by
  cases e with
  | insert =>
      refine .bind_any fun row _ => .bind_any fun k _ => .bind_any fun matched _ => ?_
      refine .of_bind ((attachAll_changes r matched _).mono (fun n' _ h => .of_pure ?_)
        fun _ hf => hf)
      exact h.steady fun _ _ => LeftEntry.Rises.steady
  | update =>
      refine .bind_any fun row _ => .bind_any fun k _ => .bind_any fun current _ => ?_
      refine .of_bind ((detachAll_changes r _ _).mono (fun n₁ _ h₁ => ?_) fun _ hf => hf)
      refine .of_bind ((attachAll_changes r _ _).mono (fun n₂ _ h₂ => .of_pure ?_) fun _ hf => hf)
      -- No left tuple is on both lists.
      intro x entry hx _
      obtain ⟨entry₁, hx₁, hfall⟩ := h₁ x entry hx
      obtain ⟨entry₂, hx₂, hrise⟩ := h₂ x entry₁ hx₁
      refine ⟨entry₂, hx₂, ?_⟩
      rcases hfall with rfl | ⟨hgone, hfall⟩
      · rcases hrise with rfl | ⟨-, hrise⟩
        · exact Or.inl rfl
        · exact hrise.steady
      · rcases hrise with rfl | ⟨hnew, -⟩
        · exact hfall.steady
        · simp only [List.mem_filter, Bool.not_eq_true', List.contains_eq_mem,
            decide_eq_false_iff_not] at hgone hnew
          exact absurd hnew.1 hgone.2
  | retract =>
      refine (detachAll_changes r _ _).mono (fun n' _ h => ?_) fun _ hf => hf
      exact Changes.steady (n := n) h fun _ _ => LeftEntry.Falls.steady

theorem onEvent_steady (hd : n.lefts.Distinct) (side : Side) (e : Event) (t : TupleId) :
    (n.onEvent side e t).Ensures s (fun n' _ => n.Steady side t n') fun _ => True := by
  cases side with
  | left => exact onLeft_steady hd e t
  | right => exact onRight_steady n e t

end Events

def reader : Reader V (ExistsNode V) := ⟨onEvent, fun _ => True⟩

def outputOf (n : ExistsNode V) (l : TupleId) : Option TupleId :=
  (n.lefts.get? l).bind (·.output)

/-- What holds after every event: the entries are those of the left inputs, they count the right
tuples matched with them, both sides agree on who is matched, and the outputs are those that the
counts ask for. -/
structure Counted (c : Scene V (ExistsNode V)) : Prop where
  entry_iff : ∀ l, (∃ entry, c.node.lefts.get? l = some entry) ↔ c.heard.known .left l
  count : ∀ l entry, c.node.lefts.get? l = some entry →
    entry.matched.Nodup ∧ entry.count = entry.matched.length
  matches_iff : ∀ l r, c.node.Matches l r ↔ l ∈ c.node.rights.getD r []
  asked : ∀ l entry, c.node.lefts.get? l = some entry →
    ((∃ out, entry.output = some out) ↔ (0 < entry.count ↔ c.node.shouldExist = true))
  output : ∀ l out, c.node.outputOf l = some out → c.Output out
  left : ∀ out, c.Output out → ∃! l, c.node.outputOf l = some out

/-- The existence has made of its inputs what it should. -/
structure Complete (shouldExist : Bool) (j : JoinIndexer V) (c : Scene V (ExistsNode V)) :
    Prop where
  matches_iff : ∀ l r, c.node.Matches l r ↔
    c.heard.known .left l ∧ c.heard.known .right r ∧ j.Joins (c.row l) (c.row r)
  output_iff : ∀ l, (∃ out, c.node.outputOf l = some out) ↔
    c.heard.known .left l ∧ ((∃ r, c.node.Matches l r) ↔ shouldExist = true)
  row : ∀ l out, c.node.outputOf l = some out → c.row out = c.row l

variable [Std.TransOrd V] {shouldExist : Bool} {j : JoinIndexer V} {c : Scene V (ExistsNode V)}

theorem keeps (shouldExist : Bool) (j : JoinIndexer V) : (reader (V := V)).Keeps outputIds
    (fun n h ρ => n.Books h ρ ∧ n.indexer = j ∧ n.shouldExist = shouldExist) j.Raises where
  frame hb hknown hfresh houts := ⟨hb.1.frame hknown hfresh houts, hb.2⟩
  onEvent := by
    rintro n h s side e t - ⟨hb, rfl, rfl⟩ he hc
    refine (onEvent_ensures (W := fun _ => True) hb he hc fun _ _ => trivial).mono ?_
      fun _ hf => hf.2.raises
    exact fun n' s' ⟨hw, hb', hindexer, hexist⟩ => ⟨hw, hb', hindexer, hexist⟩

/-- What an existence has come to in its life. -/
abbrev Kept (shouldExist : Bool) (j : JoinIndexer V) (c : Scene V (ExistsNode V)) : Prop :=
  c.Kept outputIds fun n h ρ => n.Books h ρ ∧ n.indexer = j ∧ n.shouldExist = shouldExist

theorem kept_of_lives (hc : reader.Lives (.new shouldExist j) c) : Kept shouldExist j c :=
  (keeps shouldExist j).lives rfl (fun _ => ⟨books_new shouldExist j fun _ _ => id, rfl, rfl⟩) hc

omit [Std.TransOrd V] in
theorem Kept.counted (hk : Kept shouldExist j c) : Counted c := by
  obtain ⟨hb, -, -⟩ := hk.books
  have hids : ∀ out, out ∈ c.node.outputIds ↔ ∃ l, c.node.outputOf l = some out := by
    intro out
    constructor
    · intro hout
      obtain ⟨entry, hentry, hout⟩ := List.mem_filterMap.mp hout
      obtain ⟨l, hl⟩ := hb.tally.distinct.mem_values_iff.mp hentry
      exact ⟨l, Option.bind_eq_some_iff.mpr ⟨entry, hl, hout⟩⟩
    · rintro ⟨l, hl⟩
      obtain ⟨entry, hl, hout⟩ := Option.bind_eq_some_iff.mp hl
      exact mem_outputIds hl hout
  refine ⟨hb.tally.known_iff, fun l entry hl => ⟨hb.tally.nodup l entry hl,
    hb.tally.count l entry hl⟩, fun l r => (hb.mem_iff l r).symm, fun l entry => hb.asked,
    fun l out hl => hk.output_iff.mpr ((hids out).mpr ⟨l, hl⟩), fun out hout => ?_⟩
  obtain ⟨l, hl⟩ := (hids out).mp (hk.output_iff.mp hout)
  refine ⟨l, hl, fun l' hl' => ?_⟩
  obtain ⟨entry, hl, hout⟩ := Option.bind_eq_some_iff.mp hl
  obtain ⟨entry', hl', hout'⟩ := Option.bind_eq_some_iff.mp hl'
  exact output_inj hb.tally.distinct hk.tended.nodup hl' hl hout' hout

theorem Kept.complete (hk : Kept shouldExist j c) (hu : c.UpToDate) :
    Complete shouldExist j c := by
  obtain ⟨hb, rfl, rfl⟩ := hk.books
  have hknown : ∀ l r, c.node.Matches l r → c.heard.known .left l ∧ c.heard.known .right r :=
    fun l r hlr => ⟨(hb.holds .left).known_of_meet_left (hb.belong l r hlr),
      (hb.holds .right).known_of_meet_right (hb.belong l r hlr)⟩
  have hjoins : ∀ l r, c.heard.known .left l → c.heard.known .right r →
      (c.node.Matches l r ↔ c.node.indexer.Joins (c.row l) (c.row r)) := fun l r hl hr =>
    hb.matches_iff_joins (hu .left l hl) (hu .right r hr)
  refine ⟨fun l r => ⟨fun hlr => ?_, fun ⟨hl, hr, hj⟩ => (hjoins l r hl hr).mpr hj⟩, fun l => ?_,
    fun l out hl => ?_⟩
  · obtain ⟨hl, hr⟩ := hknown l r hlr
    exact ⟨hl, hr, (hjoins l r hl hr).mp hlr⟩
  · rw [← hb.tally.known_iff, outputOf]
    constructor
    · rintro ⟨out, hl⟩
      obtain ⟨entry, hl, hout⟩ := Option.bind_eq_some_iff.mp hl
      rw [hb.exists_matches hl]
      exact ⟨⟨entry, hl⟩, (hb.asked hl).mp ⟨out, hout⟩⟩
    · rintro ⟨⟨entry, hl⟩, hask⟩
      rw [hb.exists_matches hl] at hask
      obtain ⟨out, hout⟩ := (hb.asked hl).mpr hask
      exact ⟨out, Option.bind_eq_some_iff.mpr ⟨entry, hl, hout⟩⟩
  · obtain ⟨entry, hl, hout⟩ := Option.bind_eq_some_iff.mp hl
    exact hb.shown l entry out hl hout (hu .left l ((hb.tally.known_iff l).mp ⟨entry, hl⟩))

/-- An existence whose conditions can be tried on all rows counts what is matched after every event
and is complete whenever it was told of everything. Only a key that cannot be taken stops it, and
events of other tuples leave an output alone unless its count crosses zero. -/
theorem counted_of_lives (htotal : ∀ l r, ∃ passes, j.accepts l r = .ok passes)
    (hc : reader.Lives (.new shouldExist j) c) :
    Counted c ∧ (c.UpToDate → Complete shouldExist j c) ∧ ∀ side e t, c.Admits side e t →
      (∃ n s, (c.node.onEvent side e t).run.run c.staging = (.ok n, s) ∧
        c.node.Steady side t n) ∨
      ∃ f s, (c.node.onEvent side e t).run.run c.staging = (.error f, s) ∧
        ∃ σ row, j.key σ row = .error f := by
  have hk := kept_of_lives hc
  refine ⟨hk.counted, hk.complete, fun side e t ha => ?_⟩
  rcases hk.proceeds (keeps shouldExist j) trivial ha with ⟨n, s, hrun⟩ | ⟨f, s, hrun, hf⟩
  · exact Or.inl ⟨n, s, hrun, (onEvent_steady hk.books.1.tally.distinct side e t).ok hrun⟩
  · refine Or.inr ⟨f, s, hrun, ?_⟩
    rcases hf with hkey | ⟨l, r, hlr⟩
    · exact hkey
    · obtain ⟨passes, hpass⟩ := htotal l r
      rw [hpass] at hlr
      cases hlr

/-- A coin that is there itself is not among those without a coin of their worth. -/
theorem counted_of_lives_coins : ∃ c, reader.Lives (.new false Coin.sameWorth) c ∧ c.UpToDate ∧
    c.heard.known .left 0 ∧ c.heard.known .right 0 ∧ c.row 0 = [⟨7, false⟩] ∧ Counted c ∧
      Complete false Coin.sameWorth c := by
  obtain ⟨c, log, hc, hl, hfacts⟩ := Scene.exists_of_play? kept_of_lives
    (valid_coinArena [⟨5, true⟩]) (by simp [Cue.exchange, Cue.Heard, reader])
    (by decide +kernel : ((Scene.born (.new false Coin.sameWorth) (coinArena [⟨5, true⟩])).play?
      reader outputIds Cue.exchange).any fun p => (∀ x ∈ p.2.known, x ∈ p.2.fresh) ∧
        (.left, 0) ∈ p.2.known ∧ (.right, 0) ∈ p.2.known ∧ p.1.row 0 = [⟨7, false⟩])
  obtain ⟨hall, hleft, hright, hrow⟩ := of_decide_eq_true hfacts
  have hu := hl.upToDate hall
  have htotal : ∀ l r, ∃ passes, Coin.sameWorth.accepts l r = .ok passes := fun _ _ =>
    ⟨true, rfl⟩
  obtain ⟨hcounted, hcomplete, -⟩ := counted_of_lives htotal hc
  exact ⟨c, hc, hu, (hl.known_iff .left 0).mpr hleft, (hl.known_iff .right 0).mpr hright, hrow,
    hcounted, hcomplete hu⟩

end ExistsNode

end ConstraintScoring
