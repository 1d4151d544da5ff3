import ConstraintScoring.Node.Exists
import ConstraintScoring.Proofs.Node.Join

/-!
# Existence

A left tuple has an entry that lists the right tuples matched with it and counts them, and it has an
output exactly when the count asks for one. An entry is loose while its count has changed and its
output has not been looked at.
-/

namespace ConstraintScoring.ExistsNode

variable {V : Type} [Cell V]

def index (n : ExistsNode V) : Side → TupleIndex V
  | .left => n.left
  | .right => n.right

def opposite (n : ExistsNode V) : Side → TupleIndex V
  | .left => n.right
  | .right => n.left

def Belong (n : ExistsNode V) (l r : TupleId) : Prop := n.left.Meet n.right l r

def Matches (n : ExistsNode V) (l r : TupleId) : Prop :=
  ∃ entry, n.lefts.get? l = some entry ∧ r ∈ entry.matched

structure Tally (n : ExistsNode V) (known loose : TupleId → Prop) : Prop where
  distinct : n.lefts.Distinct
  known_iff : ∀ l, (∃ entry, n.lefts.get? l = some entry) ↔ known l
  nodup : ∀ l entry, n.lefts.get? l = some entry → entry.matched.Nodup
  count : ∀ l entry, n.lefts.get? l = some entry → entry.count = entry.matched.length
  settled : ∀ l entry, n.lefts.get? l = some entry → ¬loose l →
    entry.output.isSome = ((entry.count != 0) == n.shouldExist)

/-- The outputs of fresh left tuples show their rows. -/
def Shown (n : ExistsNode V) (ρ : TupleId → Row V) (fresh : TupleId → Prop) : Prop :=
  ∀ l entry out, n.lefts.get? l = some entry → entry.output = some out → fresh l → ρ out = ρ l

structure Books (n : ExistsNode V) (h : Hearing) (ρ : TupleId → Row V) : Prop where
  holds : ∀ side, (n.index side).Holds (h.known side)
  keys : ∀ side t, h.fresh side t → ∃ k k', (n.index side).keys.get? t = some k ∧
    n.indexer.key side (ρ t) = .ok k' ∧ (k == k') = true
  tally : n.Tally (h.known .left) fun _ => False
  links : Links n.rights
  mem_iff : ∀ l r, l ∈ n.rights.getD r [] ↔ n.Matches l r
  belong : ∀ l r, n.Matches l r → n.Belong l r
  inLine : ∀ l r, h.fresh .left l → h.fresh .right r → n.Belong l r →
    ∃ passes, n.indexer.accepts (ρ l) (ρ r) = .ok passes ∧ (passes = true ↔ n.Matches l r)
  shown : n.Shown ρ (h.fresh .left)

theorem books_new (shouldExist : Bool) (indexer : JoinIndexer V) {h : Hearing}
    {ρ : TupleId → Row V} (hknown : ∀ σ t, ¬h.known σ t) :
    Books ⟨shouldExist, indexer, .empty, .empty, .empty, .empty⟩ h ρ := by
  have hfresh : ∀ σ t, ¬h.fresh σ t := fun σ t ht => hknown σ t (h.known_of_fresh σ t ht)
  refine ⟨fun side => ?_, fun side t ht => absurd ht (hfresh side t),
    ⟨Table.distinct_empty, fun l => ?_, by simp, by simp, by simp⟩, links_empty, fun l r => ?_,
    fun l r hm => ?_, fun l r hl => absurd hl (hfresh .left l), fun l entry out hl => ?_⟩
  · cases side with
    | left => exact TupleIndex.holds_empty.congr fun t => iff_of_false id (hknown .left t)
    | right => exact TupleIndex.holds_empty.congr fun t => iff_of_false id (hknown .right t)
  · exact iff_of_false (fun ⟨_, hx⟩ => by simp at hx) (hknown .left l)
  · simp [Matches, Table.getD]
  · simp [Matches] at hm
  · simp at hl

def outputIds (n : ExistsNode V) : List TupleId := n.lefts.values.filterMap (·.output)

/-- What stays as long as a node looks at its entries only. -/
structure Alike (n n' : ExistsNode V) : Prop where
  shouldExist : n'.shouldExist = n.shouldExist
  indexer : n'.indexer = n.indexer
  left : n'.left = n.left
  right : n'.right = n.right
  rights : n'.rights = n.rights

section Outputs

variable {n : ExistsNode V} {l l' out : TupleId} {entry entry' : LeftEntry}

omit [Cell V] in
theorem mem_outputIds (hl : n.lefts.get? l = some entry) (hout : entry.output = some out) :
    out ∈ n.outputIds :=
  List.mem_filterMap.mpr ⟨entry, Table.mem_values_of_get? hl, hout⟩

def withEntry (n : ExistsNode V) (l : TupleId) (entry : LeftEntry) : ExistsNode V :=
  { n with lefts := n.lefts.insert l entry }

def otherIds (n : ExistsNode V) (l : TupleId) : List TupleId :=
  (n.lefts.erase l).values.filterMap (·.output)

omit [Cell V] in
theorem outputIds_of_some (hl : n.lefts.get? l = some entry) :
    n.outputIds.Perm (entry.output.toList ++ n.otherIds l) := by
  have hperm := (n.lefts.values_perm l).filterMap (·.output)
  rw [hl] at hperm
  cases hout : entry.output <;> simpa [outputIds, otherIds, hout] using hperm

omit [Cell V] in
theorem outputIds_of_none (hl : n.lefts.get? l = none) : n.otherIds l = n.outputIds := by
  rw [otherIds, Table.erase_of_none hl, outputIds]

omit [Cell V] in
theorem outputIds_withEntry (n : ExistsNode V) (l : TupleId) (entry : LeftEntry) :
    (n.withEntry l entry).outputIds.Perm (entry.output.toList ++ n.otherIds l) := by
  have hperm := (n.lefts.values_insert l entry).filterMap (·.output)
  cases hout : entry.output <;> simpa [outputIds, otherIds, withEntry, hout] using hperm

omit [Cell V] in
theorem get?_withEntry (n : ExistsNode V) (l l' : TupleId) (entry : LeftEntry) :
    (n.withEntry l entry).lefts.get? l' = if l = l' then some entry else n.lefts.get? l' := by
  simp [withEntry, Table.get?_insert]

omit [Cell V] in
/-- Different left tuples have different outputs. -/
theorem output_inj (hd : n.lefts.Distinct) (hn : n.outputIds.Nodup)
    (hl : n.lefts.get? l = some entry) (hl' : n.lefts.get? l' = some entry')
    (hout : entry.output = some out) (hout' : entry'.output = some out) : l = l' := by
  by_contra hne
  have hperm := outputIds_of_some hl
  rw [hout] at hperm
  have hmem : out ∈ n.otherIds l := by
    refine List.mem_filterMap.mpr ⟨entry', Table.mem_values_of_get? (k := l') ?_, hout'⟩
    rw [hd.get?_erase, if_neg (by simpa using hne), hl']
  exact (List.nodup_cons.mp (hperm.nodup_iff.mp hn)).1 hmem

omit [Cell V] in
theorem matches_withEntry (n : ExistsNode V) (entry : LeftEntry) {r : TupleId} :
    (n.withEntry l entry).Matches l' r ↔ if l = l' then r ∈ entry.matched else n.Matches l' r := by
  unfold Matches
  by_cases hl : l = l' <;> simp [get?_withEntry, hl]

omit [Cell V] in
theorem Tally.withEntry {known loose : TupleId → Prop} (ht : n.Tally known loose)
    (entry : LeftEntry) (known' : TupleId → Prop) (hknown : ∀ x, known' x ↔ x = l ∨ known x)
    (hnodup : entry.matched.Nodup) (hcount : entry.count = entry.matched.length) :
    (n.withEntry l entry).Tally known' fun x => x = l ∨ loose x := by
  refine ⟨ht.distinct.insert _ _, fun x => ?_, fun x e hx => ?_, fun x e hx => ?_,
    fun x e hx hloose => ?_⟩
  · rw [get?_withEntry, hknown]
    by_cases hxl : l = x
    · simp [hxl]
    · simp [hxl, Ne.symm hxl, ht.known_iff]
  all_goals
    rw [get?_withEntry] at hx
    split at hx
  · obtain rfl := Option.some.inj hx
    exact hnodup
  · exact ht.nodup x e hx
  · obtain rfl := Option.some.inj hx
    exact hcount
  · exact ht.count x e hx
  · rename_i hxl
    exact absurd (Or.inl hxl.symm) hloose
  · exact ht.settled x e hx fun hx => hloose (Or.inr hx)

omit [Cell V] in
/-- Of a node, the tally reads the entries and what they are asked for. -/
theorem Tally.congr {n' : ExistsNode V} {known known' loose : TupleId → Prop}
    (ht : n.Tally known loose) (hlefts : n'.lefts = n.lefts)
    (hexist : n'.shouldExist = n.shouldExist) (hknown : ∀ x, known x ↔ known' x) :
    n'.Tally known' loose := by
  refine ⟨?_, fun x => ?_, ?_, ?_, ?_⟩
  · rw [hlefts]
    exact ht.distinct
  · rw [hlefts]
    exact (ht.known_iff x).trans (hknown x)
  · rw [hlefts]
    exact ht.nodup
  · rw [hlefts]
    exact ht.count
  · rw [hlefts, hexist]
    exact ht.settled

omit [Cell V] in
theorem Tally.loosen {known loose loose' : TupleId → Prop} (ht : n.Tally known loose)
    (hloose : ∀ x, loose x → loose' x) : n.Tally known loose' :=
  ⟨ht.distinct, ht.known_iff, ht.nodup, ht.count,
    fun x e hx hnot => ht.settled x e hx fun hl => hnot (hloose x hl)⟩

omit [Cell V] in
/-- An entry that is as it should be is not loose. -/
theorem Tally.tighten {known : TupleId → Prop} (ht : n.Tally known (· = l))
    (hl : n.lefts.get? l = some entry)
    (hout : entry.output.isSome = ((entry.count != 0) == n.shouldExist)) :
    n.Tally known fun _ => False := by
  refine ⟨ht.distinct, ht.known_iff, ht.nodup, ht.count, fun x e hx _ => ?_⟩
  by_cases hxl : x = l
  · subst hxl
    obtain rfl := Option.some.inj (hl.symm.trans hx)
    exact hout
  · exact ht.settled x e hx hxl

omit [Cell V] in
/-- An entry that gets the output its count asks for is not loose. -/
theorem Tally.withOutput {known : TupleId → Prop} (ht : n.Tally known (· = l))
    (hl : n.lefts.get? l = some entry) {output : Option TupleId}
    (hout : output.isSome = ((entry.count != 0) == n.shouldExist)) :
    (n.withEntry l { entry with output }).Tally known fun _ => False := by
  have hknown : known l := (ht.known_iff l).mp ⟨entry, hl⟩
  have ht' := ht.withEntry { entry with output } known
    (fun x => ⟨Or.inr, fun hx => hx.elim (fun hxl => hxl ▸ hknown) id⟩)
    (ht.nodup l entry hl) (ht.count l entry hl)
  have hget : (n.withEntry l { entry with output }).lefts.get? l = some { entry with output } := by
    rw [get?_withEntry, if_pos rfl]
  exact (ht'.loosen fun x hx => hx.elim id id).tighten hget hout

omit [Cell V] in
theorem matches_withOutput (hl : n.lefts.get? l = some entry) (output : Option TupleId)
    {r : TupleId} : (n.withEntry l { entry with output }).Matches l' r ↔ n.Matches l' r := by
  rw [matches_withEntry]
  split
  · rename_i hll
    exact ⟨fun hr => ⟨entry, hll ▸ hl, hr⟩, fun ⟨e, he, hr⟩ => by
      obtain rfl := Option.some.inj ((hll ▸ hl).symm.trans he)
      exact hr⟩
  · rfl

end Outputs

section Refresh

variable {W : Row V → Prop} {n : ExistsNode V} {s : Staging V} {l r : TupleId}
  {I known fresh : TupleId → Prop} {M : TupleId → TupleId → Prop} {R : Fault → Prop}

/-- After entries were changed and their outputs brought in line. -/
structure Adjusted (W : Row V → Prop) (n : ExistsNode V) (s : Staging V)
    (known fresh : TupleId → Prop) (M : TupleId → TupleId → Prop) (n' : ExistsNode V)
    (s' : Staging V) : Prop where
  work : Staging.Work W s n.outputIds s' n'.outputIds
  alike : Alike n n'
  tally : n'.Tally known fun _ => False
  shown : n'.Shown s'.arena.row fresh
  matches_iff : ∀ l r, n'.Matches l r ↔ M l r

variable {entry : LeftEntry} {out : TupleId}

omit [Cell V] in
/-- The output follows the changed row of its left tuple. -/
theorem adjusted_updated (ht : n.Tally known (· = l)) (hc : s.Clear n.outputIds I)
    (hI : ∀ x, fresh x → I x) (hentry : n.lefts.get? l = some entry) (hout : entry.output = some out)
    (hexist : ((entry.count != 0) == n.shouldExist) = true)
    (hshown : n.Shown s.arena.row fun x => fresh x ∧ x ≠ l) (hW : W (s.arena.row l)) :
    n.Adjusted W s known fresh n.Matches n (s.updated out (s.arena.row l)) := by
  have hmem : out ∈ n.outputIds := mem_outputIds hentry hout
  have hrow := Staging.row_updated (r := s.arena.row l) (hc.tended.active out hmem)
    (hc.tended.occupied hmem)
  refine ⟨.update .refl hmem hW, ⟨rfl, rfl, rfl, rfl, rfl⟩,
    ht.tighten hentry (by rw [hout, hexist]; rfl), fun x e o hx ho hfresh => ?_,
    fun _ _ => Iff.rfl⟩
  have hxout : x ≠ out := fun hxo => hc.apart x (hI x hfresh) (hxo ▸ hmem)
  rw [hrow, hrow, if_neg hxout]
  by_cases hxl : x = l
  · subst hxl
    obtain rfl := Option.some.inj (hentry.symm.trans hx)
    obtain rfl := Option.some.inj (hout.symm.trans ho)
    rw [if_pos rfl]
  · rw [if_neg, hshown x e o hx ho ⟨hfresh, hxl⟩]
    rintro rfl
    exact hxl (output_inj ht.distinct hc.tended.nodup hx hentry ho hout)

omit [Cell V] in
/-- The count no longer asks for the output, which is taken back. -/
theorem adjusted_retracted (ht : n.Tally known (· = l)) (hc : s.Clear n.outputIds I)
    (hentry : n.lefts.get? l = some entry) (hout : entry.output = some out)
    (hexist : ((entry.count != 0) == n.shouldExist) = false)
    (hshown : n.Shown s.arena.row fun x => fresh x ∧ x ≠ l) :
    n.Adjusted W s known fresh n.Matches (n.withEntry l { entry with output := none })
      (s.retracted out) := by
  have hmem : out ∈ n.outputIds := mem_outputIds hentry hout
  have hrow := Staging.row_retracted (hc.tended.active out hmem)
  have hids : (n.outputIds.erase out).Perm
      (n.withEntry l { entry with output := none }).outputIds := by
    have herase := (outputIds_of_some hentry).erase out
    rw [hout, Option.toList_some, List.singleton_append, List.erase_cons_head] at herase
    exact herase.trans (outputIds_withEntry n l { entry with output := none }).symm
  refine ⟨(Staging.Work.refl.retract hmem).perm hids, ⟨rfl, rfl, rfl, rfl, rfl⟩,
    ht.withOutput hentry (by rw [hexist]; rfl), fun x e o hx ho hfresh => ?_,
    fun _ _ => matches_withOutput hentry none⟩
  rw [get?_withEntry] at hx
  split at hx
  · obtain rfl := Option.some.inj hx
    cases ho
  · rename_i hlx
    rw [hrow, hrow, hshown x e o hx ho ⟨hfresh, Ne.symm hlx⟩]

omit [Cell V] in
/-- The count asks for an output, which is made. -/
theorem adjusted_inserted (ht : n.Tally known (· = l)) (hc : s.Clear n.outputIds I)
    (hI : ∀ x, fresh x → I x) (hentry : n.lefts.get? l = some entry) (hout : entry.output = none)
    (hexist : ((entry.count != 0) == n.shouldExist) = true)
    (hshown : n.Shown s.arena.row fun x => fresh x ∧ x ≠ l) (hW : W (s.arena.row l)) :
    n.Adjusted W s known fresh n.Matches (n.withEntry l { entry with output := some s.arena.next })
      (s.inserted (s.arena.row l)) := by
  have hrow := Staging.row_inserted (r := s.arena.row l) hc.tended.valid
  have hids : (s.arena.next :: n.outputIds).Perm
      (n.withEntry l { entry with output := some s.arena.next }).outputIds := by
    have hperm := outputIds_of_some hentry
    rw [hout, Option.toList_none, List.nil_append] at hperm
    exact (hperm.cons _).trans
      (outputIds_withEntry n l { entry with output := some s.arena.next }).symm
  refine ⟨(Staging.Work.refl.insert hW).perm hids, ⟨rfl, rfl, rfl, rfl, rfl⟩,
    ht.withOutput hentry (by rw [hexist]; rfl), fun x e o hx ho hfresh => ?_,
    fun _ _ => matches_withOutput hentry _⟩
  rw [get?_withEntry] at hx
  rw [hc.row_inserted (hI x hfresh)]
  split at hx
  · rename_i hlx
    obtain rfl := Option.some.inj hx
    obtain rfl := Option.some.inj ho
    rw [hrow, if_pos rfl, hlx]
  · rename_i hlx
    have ho' := mem_outputIds hx ho
    rw [hrow, if_neg fun (hon : o = s.arena.next) => hc.next_not_mem (hon ▸ ho')]
    exact hshown x e o hx ho ⟨hfresh, Ne.symm hlx⟩

omit [Cell V] in
theorem refreshOutput_ensures {rowChanged : Bool} (ht : n.Tally known (· = l)) (hl : known l)
    (hc : s.Clear n.outputIds I) (hI : ∀ x, fresh x → I x)
    (hshown : n.Shown s.arena.row fun x => fresh x ∧ (x = l → rowChanged = false))
    (hW : W (s.arena.row l)) :
    (n.refreshOutput l rowChanged).Ensures s (n.Adjusted W s known fresh n.Matches) R := by
  obtain ⟨entry, hentry⟩ := (ht.known_iff l).mpr hl
  have hothers : n.Shown s.arena.row fun x => fresh x ∧ x ≠ l := fun x e o hx ho hf =>
    hshown x e o hx ho ⟨hf.1, fun hxl => absurd hxl hf.2⟩
  -- The output is as the count asks, and its row is the one that it showed before.
  have hkept (hout : entry.output.isSome = ((entry.count != 0) == n.shouldExist))
      (hrow : entry.output.isSome → rowChanged = false) :
      n.Adjusted W s known fresh n.Matches n s := by
    refine ⟨.refl, ⟨rfl, rfl, rfl, rfl, rfl⟩, ht.tighten hentry hout, fun x e o hx ho hfresh => ?_,
      fun _ _ => Iff.rfl⟩
    refine hshown x e o hx ho ⟨hfresh, fun hxl => hrow ?_⟩
    obtain rfl := Option.some.inj (hentry.symm.trans (hxl ▸ hx))
    rw [ho, Option.isSome_some]
  unfold refreshOutput
  simp only [hentry]
  cases hout : entry.output with
  | some out =>
      have ha := hc.tended.active out (mem_outputIds hentry hout)
      cases hexist : (entry.count != 0) == n.shouldExist with
      | true =>
          cases rowChanged with
          | true =>
              simp only [↓reduceIte]
              exact .of_bind (.of_rowOf (.of_bind (.of_update ha (.of_pure
                (adjusted_updated ht hc hI hentry hout hexist hothers hW)))))
          | false =>
              exact .of_bind (.of_pure (.of_pure (hkept (by rw [hout, hexist]; rfl) fun _ => rfl)))
      | false =>
          exact .of_bind (.of_retract ha (.of_pure
            (adjusted_retracted ht hc hentry hout hexist hothers)))
  | none =>
      cases hexist : (entry.count != 0) == n.shouldExist with
      | true =>
          exact .of_bind (.of_rowOf (.of_bind (.of_insert (.of_pure
            (adjusted_inserted ht hc hI hentry hout hexist hothers hW)))))
      | false =>
          refine .of_pure (hkept (by rw [hout, hexist]; rfl) fun hsome => ?_)
          rw [hout] at hsome
          cases hsome

omit [Cell V] in
/-- An entry is replaced by one with the same output, which is looked at if the count may now ask
for another. -/
theorem reentry_ensures {entry : LeftEntry} (entry' : LeftEntry) {p : Prop} [Decidable p]
    (ht : n.Tally known fun _ => False) (hentry : n.lefts.get? l = some entry)
    (hout : entry'.output = entry.output) (hnodup : entry'.matched.Nodup)
    (hcount : entry'.count = entry'.matched.length)
    (hp : ¬p → (entry'.count != 0) = (entry.count != 0)) (hc : s.Clear n.outputIds I)
    (hI : ∀ x, fresh x → I x) (hshown : n.Shown s.arena.row fresh) (hW : W (s.arena.row l)) :
    (if p then (n.withEntry l entry').refreshOutput l false
      else pure (n.withEntry l entry')).Ensures s
      (n.Adjusted W s known fresh (n.withEntry l entry').Matches) R := by
  have hl : known l := (ht.known_iff l).mp ⟨entry, hentry⟩
  have hids : n.outputIds.Perm (n.withEntry l entry').outputIds := by
    have hperm := outputIds_withEntry n l entry'
    rw [hout] at hperm
    exact (outputIds_of_some hentry).trans hperm.symm
  have hget : (n.withEntry l entry').lefts.get? l = some entry' := by
    rw [get?_withEntry, if_pos rfl]
  have htally : (n.withEntry l entry').Tally known (· = l) :=
    (ht.withEntry entry' known (fun x => ⟨Or.inr, fun hx => hx.elim (fun hxl => hxl ▸ hl) id⟩)
      hnodup hcount).loosen fun x hx => hx.elim id False.elim
  have hshown' : (n.withEntry l entry').Shown s.arena.row fresh := by
    intro x e o hx ho hfresh
    rw [get?_withEntry] at hx
    split at hx
    · rename_i hlx
      obtain rfl := Option.some.inj hx
      exact hshown x entry o (hlx ▸ hentry) (hout ▸ ho) hfresh
    · exact hshown x e o hx ho hfresh
  split
  · refine (refreshOutput_ensures (W := W) htally hl (hc.work (W := W) (.perm .refl hids)) hI
      (fun x e o hx ho hfresh => hshown' x e o hx ho hfresh.1) hW).mono ?_ fun _ hf => hf
    rintro n' s' ⟨w, halike, ht, hshown, hmatches⟩
    exact ⟨(Staging.Work.refl.perm hids).trans w,
      ⟨halike.shouldExist, halike.indexer, halike.left, halike.right, halike.rights⟩, ht, hshown,
      hmatches⟩
  · rename_i hnot
    refine .of_pure ⟨.perm .refl hids, ⟨rfl, rfl, rfl, rfl, rfl⟩, htally.tighten hget ?_, hshown',
      fun _ _ => Iff.rfl⟩
    rw [hout, hp hnot]
    exact ht.settled l entry hentry fun h => h

omit [Cell V] in
theorem attach_ensures (ht : n.Tally known fun _ => False) (hl : known l) (hnot : ¬n.Matches l r)
    (hc : s.Clear n.outputIds I) (hI : ∀ x, fresh x → I x) (hshown : n.Shown s.arena.row fresh)
    (hW : W (s.arena.row l)) :
    (n.attach l r).Ensures s
      (n.Adjusted W s known fresh fun l' r' => l' = l ∧ r' = r ∨ n.Matches l' r') R := by
  obtain ⟨entry, hentry⟩ := (ht.known_iff l).mpr hl
  have hr : r ∉ entry.matched := fun hr => hnot ⟨entry, hentry, hr⟩
  have hcount := ht.count l entry hentry
  unfold attach
  simp only [hentry]
  refine (reentry_ensures (W := W) { entry with
    matched := includeTuple r entry.matched, count := entry.count + 1 } ht hentry rfl
    (nodup_includeTuple (ht.nodup l entry hentry)) ?_ ?_ hc hI hshown hW).mono ?_ fun _ hf => hf
  · rw [length_includeTuple hr, hcount]
  · intro hne
    have hpos : entry.count ≠ 0 := fun h0 => hne (by rw [h0])
    simp [hpos]
  · rintro n' s' ⟨w, halike, ht', hshown', hmatches⟩
    refine ⟨w, halike, ht', hshown', fun l' r' => ?_⟩
    rw [hmatches, matches_withEntry]
    by_cases hl' : l = l'
    · subst hl'
      simp only [if_pos, mem_includeTuple, true_and]
      refine or_congr_right ⟨fun h => ⟨entry, hentry, h⟩, fun ⟨e, he, h⟩ => ?_⟩
      rwa [Option.some.inj (hentry.symm.trans he)]
    · simp [hl', Ne.symm hl']

omit [Cell V] in
theorem detach_ensures (ht : n.Tally known fun _ => False) (hlr : n.Matches l r)
    (hc : s.Clear n.outputIds I) (hI : ∀ x, fresh x → I x) (hshown : n.Shown s.arena.row fresh)
    (hW : W (s.arena.row l)) :
    (n.detach l r).Ensures s
      (n.Adjusted W s known fresh fun l' r' => n.Matches l' r' ∧ ¬(l' = l ∧ r' = r)) R := by
  obtain ⟨entry, hentry, hr⟩ := hlr
  have hcount := ht.count l entry hentry
  have hnodup := ht.nodup l entry hentry
  have hpos : entry.count ≠ 0 := by
    rw [hcount]
    exact Nat.ne_of_gt (List.length_pos_of_mem hr)
  unfold detach
  simp only [hentry, if_neg hpos]
  refine (reentry_ensures (W := W) { entry with
    matched := excludeTuple r entry.matched, count := entry.count - 1 } ht hentry rfl
    (nodup_excludeTuple hnodup) ?_ ?_ hc hI hshown hW).mono ?_ fun _ hf => hf
  · rw [length_excludeTuple hr, hcount]
  · intro hne
    have hne' : (entry.count - 1 != 0) = true := bne_iff_ne.mpr hne
    rw [hne', bne_iff_ne.mpr hpos]
  · rintro n' s' ⟨w, halike, ht', hshown', hmatches⟩
    refine ⟨w, halike, ht', hshown', fun l' r' => ?_⟩
    rw [hmatches, matches_withEntry]
    by_cases hl' : l = l'
    · subst hl'
      simp only [if_pos, mem_excludeTuple hnodup, true_and]
      refine ⟨fun h => ⟨⟨entry, hentry, h.2⟩, h.1⟩, fun ⟨⟨e, he, h⟩, hne⟩ => ⟨hne, ?_⟩⟩
      rwa [Option.some.inj (hentry.symm.trans he)]
    · simp [hl', Ne.symm hl']

omit [Cell V] in
theorem Adjusted.trans {n' n'' : ExistsNode V} {s' s'' : Staging V}
    {M M' : TupleId → TupleId → Prop} (h : n.Adjusted W s known fresh M n' s')
    (h' : n'.Adjusted W s' known fresh M' n'' s'') : n.Adjusted W s known fresh M' n'' s'' :=
  ⟨h.work.trans h'.work, ⟨h'.alike.shouldExist.trans h.alike.shouldExist,
    h'.alike.indexer.trans h.alike.indexer, h'.alike.left.trans h.alike.left,
    h'.alike.right.trans h.alike.right, h'.alike.rights.trans h.alike.rights⟩, h'.tally, h'.shown,
    h'.matches_iff⟩

omit [Cell V] in
theorem attachAll_ensures (ls : List TupleId) :
    ∀ {n : ExistsNode V} {s : Staging V}, n.Tally known (fun _ => False) →
      s.Clear n.outputIds I → n.Shown s.arena.row fresh → (∀ x, fresh x → I x) → ls.Nodup →
      (∀ l ∈ ls, known l ∧ ¬n.Matches l r ∧ I l ∧ W (s.arena.row l)) →
      (attachAll r n ls).Ensures s
        (n.Adjusted W s known fresh fun l' r' => r' = r ∧ l' ∈ ls ∨ n.Matches l' r') R := by
  induction ls with
  | nil =>
      intro n s ht _ hshown _ _ _
      exact .of_pure ⟨.refl, ⟨rfl, rfl, rfl, rfl, rfl⟩, ht, hshown, fun _ _ => by simp⟩
  | cons l ls ih =>
      intro n s ht hc hshown hI hnodup hls
      obtain ⟨hl, hnot, -, hW⟩ := hls l (by simp)
      obtain ⟨hlls, hnodup⟩ := List.nodup_cons.mp hnodup
      refine .of_bind ((attach_ensures (W := W) ht hl hnot hc hI hshown hW).mono ?_
        fun _ hf => hf)
      intro n₁ s₁ h₁
      refine (ih h₁.tally (hc.work h₁.work) h₁.shown hI hnodup ?_).mono ?_ fun _ hf => hf
      · intro l' hl'
        obtain ⟨hk, hnot', hIl', hW'⟩ := hls l' (List.mem_cons_of_mem l hl')
        refine ⟨hk, fun hm => ?_, hIl', by rwa [hc.row h₁.work hIl']⟩
        rcases (h₁.matches_iff l' r).mp hm with ⟨rfl, -⟩ | hm
        · exact hlls hl'
        · exact hnot' hm
      · intro n₂ s₂ h₂
        refine ⟨(h₁.trans h₂).work, (h₁.trans h₂).alike, h₂.tally, h₂.shown, fun l' r' => ?_⟩
        rw [h₂.matches_iff, h₁.matches_iff, List.mem_cons]
        tauto

omit [Cell V] in
theorem detachAll_ensures (ls : List TupleId) :
    ∀ {n : ExistsNode V} {s : Staging V}, n.Tally known (fun _ => False) →
      s.Clear n.outputIds I → n.Shown s.arena.row fresh → (∀ x, fresh x → I x) → ls.Nodup →
      (∀ l ∈ ls, n.Matches l r ∧ I l ∧ W (s.arena.row l)) →
      (detachAll r n ls).Ensures s
        (n.Adjusted W s known fresh fun l' r' => n.Matches l' r' ∧ ¬(r' = r ∧ l' ∈ ls)) R := by
  induction ls with
  | nil =>
      intro n s ht _ hshown _ _ _
      exact .of_pure ⟨.refl, ⟨rfl, rfl, rfl, rfl, rfl⟩, ht, hshown, fun _ _ => by simp⟩
  | cons l ls ih =>
      intro n s ht hc hshown hI hnodup hls
      obtain ⟨hlr, -, hW⟩ := hls l (by simp)
      obtain ⟨hlls, hnodup⟩ := List.nodup_cons.mp hnodup
      refine .of_bind ((detach_ensures (W := W) ht hlr hc hI hshown hW).mono ?_ fun _ hf => hf)
      intro n₁ s₁ h₁
      refine (ih h₁.tally (hc.work h₁.work) h₁.shown hI hnodup ?_).mono ?_ fun _ hf => hf
      · intro l' hl'
        obtain ⟨hm, hIl', hW'⟩ := hls l' (List.mem_cons_of_mem l hl')
        refine ⟨(h₁.matches_iff l' r).mpr ⟨hm, ?_⟩, hIl', by rwa [hc.row h₁.work hIl']⟩
        rintro ⟨rfl, -⟩
        exact hlls hl'
      · intro n₂ s₂ h₂
        refine ⟨(h₁.trans h₂).work, (h₁.trans h₂).alike, h₂.tally, h₂.shown, fun l' r' => ?_⟩
        rw [h₂.matches_iff, h₁.matches_iff, List.mem_cons]
        tauto

end Refresh

section Matching

variable {s : Staging V} {j : JoinIndexer V}

/-- The tuples of `xs` that the conditions accept, all of which they could be tried on. -/
structure Chosen (accepts : TupleId → Except Fault Bool) (xs chosen : List TupleId) : Prop where
  sublist : chosen.Sublist xs
  accepts : ∀ x ∈ xs, ∃ passes, accepts x = .ok passes ∧ (passes = true ↔ x ∈ chosen)

omit [Cell V] in
theorem chosen_cons (accepts : TupleId → Except Fault Bool) {x : TupleId} {xs chosen : List TupleId}
    {passes : Bool} (hn : (x :: xs).Nodup) (hx : accepts x = .ok passes)
    (h : Chosen accepts xs chosen) :
    Chosen accepts (x :: xs) (if passes then x :: chosen else chosen) := by
  have hnot := (List.nodup_cons.mp hn).1
  refine ⟨?_, fun y hy => ?_⟩
  · split
    · exact h.sublist.cons_cons x
    · exact h.sublist.cons x
  · rcases List.mem_cons.mp hy with rfl | hy
    · refine ⟨passes, hx, ?_⟩
      cases passes with
      | true => simp
      | false => simpa using fun hc => hnot (h.sublist.mem hc)
    · obtain ⟨p, hp, hiff⟩ := h.accepts y hy
      have hyx : y ≠ x := fun hyx => hnot (hyx ▸ hy)
      refine ⟨p, hp, hiff.trans ?_⟩
      split <;> simp [hyx]

omit [Cell V] in
theorem matchingLefts_ensures (right : Row V) (ls : List TupleId) (hn : ls.Nodup) :
    (matchingLefts j right ls).Ensures s
      (fun chosen s' => s' = s ∧ Chosen (fun l => j.accepts (s.arena.row l) right) ls chosen)
      fun f => ∃ l ∈ ls, j.accepts (s.arena.row l) right = .error f := by
  induction ls with
  | nil => exact .of_pure ⟨rfl, ⟨.slnil, by simp⟩⟩
  | cons l ls ih =>
      refine .of_bind (.of_rowOf (.of_bind (.of_except (fun passes hpass => ?_) fun f hf =>
        ⟨l, List.mem_cons_self, hf⟩)))
      refine .of_bind ((ih (List.nodup_cons.mp hn).2).mono ?_ fun f ⟨x, hx, hf⟩ =>
        ⟨x, List.mem_cons_of_mem l hx, hf⟩)
      rintro chosen s' ⟨rfl, h⟩
      have h' := chosen_cons (fun l => j.accepts (s'.arena.row l) right) hn hpass h
      cases passes <;> exact .of_pure ⟨rfl, h'⟩

omit [Cell V] in
theorem matchingRights_ensures (left : Row V) (rs : List TupleId) (hn : rs.Nodup) :
    (matchingRights j left rs).Ensures s
      (fun chosen s' => s' = s ∧ Chosen (fun r => j.accepts left (s.arena.row r)) rs chosen)
      fun f => ∃ r ∈ rs, j.accepts left (s.arena.row r) = .error f := by
  induction rs with
  | nil => exact .of_pure ⟨rfl, ⟨.slnil, by simp⟩⟩
  | cons r rs ih =>
      refine .of_bind (.of_rowOf (.of_bind (.of_except (fun passes hpass => ?_) fun f hf =>
        ⟨r, List.mem_cons_self, hf⟩)))
      refine .of_bind ((ih (List.nodup_cons.mp hn).2).mono ?_ fun f ⟨x, hx, hf⟩ =>
        ⟨x, List.mem_cons_of_mem r hx, hf⟩)
      rintro chosen s' ⟨rfl, h⟩
      have h' := chosen_cons (fun r => j.accepts left (s'.arena.row r)) hn hpass h
      cases passes <;> exact .of_pure ⟨rfl, h'⟩

end Matching

/-- What hearing of an event leads to, beginning with the outputs `O`. -/
def Heard (W : Row V → Prop) (n : ExistsNode V) (O : List TupleId) (s : Staging V) (h : Hearing)
    (n' : ExistsNode V) (s' : Staging V) : Prop :=
  Staging.Work W s O s' n'.outputIds ∧ n'.Books h s'.arena.row ∧ n'.indexer = n.indexer ∧
    n'.shouldExist = n.shouldExist

section Left

variable {W : Row V → Prop} {n : ExistsNode V} {s : Staging V} {h : Hearing} {l : TupleId}
  {I : TupleId → Prop}

theorem Books.frame {h h' : Hearing} {ρ ρ' : TupleId → Row V} (hb : n.Books h ρ)
    (hknown : ∀ side t, h.known side t ↔ h'.known side t)
    (hfresh : ∀ side t, h'.fresh side t → h.fresh side t ∧ ρ' t = ρ t)
    (houts : ∀ x ∈ n.outputIds, ρ' x = ρ x) : n.Books h' ρ' := by
  refine ⟨fun side => (hb.holds side).congr (hknown side), fun side t ht => ?_,
    hb.tally.congr rfl rfl (hknown .left), hb.links, hb.mem_iff, hb.belong, fun l r hl hr hlr => ?_,
    fun l e out hl hout hfr => ?_⟩
  · obtain ⟨ht, hrow⟩ := hfresh side t ht
    rw [hrow]
    exact hb.keys side t ht
  · obtain ⟨hl, hrowl⟩ := hfresh .left l hl
    obtain ⟨hr, hrowr⟩ := hfresh .right r hr
    rw [hrowl, hrowr]
    exact hb.inLine l r hl hr hlr
  · obtain ⟨hfr, hrow⟩ := hfresh .left l hfr
    rw [hrow, houts out (mem_outputIds hl hout), hb.shown l e out hl hout hfr]

omit [Cell V] in
theorem matches_of_none {r : TupleId} (hl : n.lefts.get? l = none) : ¬n.Matches l r := by
  rintro ⟨e, he, -⟩
  rw [hl] at he
  cases he

variable [Std.TransOrd V]

omit [Std.TransOrd V] in
theorem Books.get?_of_unknown {ρ : TupleId → Row V} (hb : n.Books h ρ) (hl : ¬h.known .left l) :
    n.lefts.get? l = none := by
  by_contra hne
  exact hl ((hb.tally.known_iff l).mp (Option.ne_none_iff_exists'.mp hne))

theorem books_forget {n' : ExistsNode V} {ρ : TupleId → Row V} (hb : n.Books h ρ)
    (hindexer : n'.indexer = n.indexer) (hexist : n'.shouldExist = n.shouldExist)
    (hleft : n'.left = n.left.remove l) (hright : n'.right = n.right) (hd : n'.lefts.Distinct)
    (hget : ∀ x, n'.lefts.get? x = if l = x then none else n.lefts.get? x)
    (hlinks : Links n'.rights)
    (hmem : ∀ x r, x ∈ n'.rights.getD r [] ↔ x ∈ n.rights.getD r [] ∧ x ≠ l) :
    n'.Books (h.hear .left .retract l) ρ := by
  have hother : ∀ σ, σ ≠ .left → n'.index σ = n.index σ := by
    rintro (_ | _) hσ
    · exact absurd rfl hσ
    · exact hright
  have hholds := Hearing.holds_remove hb.holds (show n'.index .left = _ from hleft) hother
  have hkeys : ∀ side t, ¬(side = .left ∧ t = l) →
      (n'.index side).keys.get? t = (n.index side).keys.get? t := fun side t =>
    Hearing.get?_remove hb.holds (show n'.index .left = _ from hleft) hother
  have hbelong : ∀ x r, x ≠ l → (n'.Belong x r ↔ n.Belong x r) := fun x r hne =>
    TupleIndex.meet_congr (hkeys .left x fun h => hne h.2) (hkeys .right r fun h => by cases h.1)
  have hgone : ∀ x r, n'.Belong x r → x ≠ l := fun x r hlr hx =>
    ((hholds .left).known_of_meet_left hlr).2 ⟨rfl, hx⟩
  have hsome : ∀ x e, n'.lefts.get? x = some e → x ≠ l ∧ n.lefts.get? x = some e := by
    intro x e hx
    rw [hget] at hx
    split at hx
    · cases hx
    · rename_i hlx
      exact ⟨Ne.symm hlx, hx⟩
  have hmatch : ∀ x r, n'.Matches x r ↔ n.Matches x r ∧ x ≠ l := by
    intro x r
    constructor
    · rintro ⟨e, he, hr⟩
      obtain ⟨hne, he⟩ := hsome x e he
      exact ⟨⟨e, he, hr⟩, hne⟩
    · rintro ⟨⟨e, he, hr⟩, hne⟩
      exact ⟨e, by rw [hget, if_neg (Ne.symm hne), he], hr⟩
  refine ⟨hholds, fun side t ht => ?_, ⟨hd, fun x => ?_,
    fun x e hx => hb.tally.nodup x e (hsome x e hx).2,
    fun x e hx => hb.tally.count x e (hsome x e hx).2, fun x e hx => ?_⟩, hlinks, fun x r => ?_,
    fun x r hm => ?_, fun x r hx hr hlr => ?_,
    fun x e o hx ho hf => hb.shown x e o (hsome x e hx).2 ho hf.1⟩
  · rw [hkeys side t ht.2, hindexer]
    exact hb.keys side t ht.1
  · change _ ↔ h.known .left x ∧ ¬(_ ∧ x = l)
    rw [hget, ← hb.tally.known_iff]
    by_cases hlx : l = x
    · simp [hlx]
    · simp [hlx, Ne.symm hlx]
  · rw [hexist]
    exact hb.tally.settled x e (hsome x e hx).2
  · rw [hmem, hmatch, hb.mem_iff]
  · obtain ⟨hm, hne⟩ := (hmatch x r).mp hm
    exact (hbelong x r hne).mpr (hb.belong x r hm)
  · have hne := hgone x r hlr
    obtain ⟨passes, hpass, hiff⟩ := hb.inLine x r hx.1 hr.1 ((hbelong x r hne).mp hlr)
    rw [hindexer]
    exact ⟨passes, hpass, hiff.trans ((and_iff_left hne).symm.trans (hmatch x r).symm)⟩

/-- A forgotten left tuple leaves its output behind. -/
theorem forgetLeft_books {ρ : TupleId → Row V} (hb : n.Books h ρ) :
    (n.forgetLeft l).1.Books (h.hear .left .retract l) ρ ∧
      n.outputIds.Perm ((n.forgetLeft l).2.toList ++ (n.forgetLeft l).1.outputIds) ∧
      (n.forgetLeft l).1.indexer = n.indexer ∧ (n.forgetLeft l).1.shouldExist = n.shouldExist := by
  unfold forgetLeft
  split
  · rename_i hl
    refine ⟨books_forget hb rfl rfl rfl rfl hb.tally.distinct (fun x => ?_) hb.links fun x r => ?_,
      List.Perm.refl _, rfl, rfl⟩
    · split
      · rename_i hlx
        exact hlx ▸ hl
      · rfl
    · refine ⟨fun hx => ⟨hx, ?_⟩, And.left⟩
      rintro rfl
      exact matches_of_none hl ((hb.mem_iff x r).mp hx)
  · rename_i entry hl
    obtain ⟨hlinks, hmem⟩ := hb.links.unlinkAll l entry.matched
    refine ⟨books_forget hb rfl rfl rfl rfl (hb.tally.distinct.erase l) (fun x => ?_) hlinks
      fun x r => (hmem x r).trans (and_congr_right fun hx => ?_), outputIds_of_some hl, rfl, rfl⟩
    · simp [hb.tally.distinct.get?_erase]
    · refine ⟨fun hnot hxl => hnot ⟨hxl, ?_⟩, fun hne hxl => hne hxl.1⟩
      obtain ⟨e, he, hr⟩ := (hb.mem_iff x r).mp hx
      obtain rfl := Option.some.inj (hl.symm.trans (hxl ▸ he))
      exact hr

/-- The books after a new left tuple was entered with the right tuples that match it. -/
theorem books_enter {n' : ExistsNode V} {ρ ρ' : TupleId → Row V} {k : Key V}
    {matched : List TupleId} (hb : n.Books h ρ) (hl : ¬h.known .left l)
    (hindexer : n'.indexer = n.indexer) (hleft : n'.left = n.left.insert l k)
    (hright : n'.right = n.right) (hk : n.indexer.key .left (ρ l) = .ok k)
    (ht : n'.Tally ((h.hear .left .insert l).known .left) fun _ => False)
    (hlinks : Links n'.rights)
    (hmem : ∀ x r, x ∈ n'.rights.getD r [] ↔ x = l ∧ r ∈ matched ∨ x ∈ n.rights.getD r [])
    (hmatched : Chosen (fun r => n.indexer.accepts (ρ l) (ρ r)) (n.right.withKey k) matched)
    (hmatch : ∀ x r, n'.Matches x r ↔ if l = x then r ∈ matched else n.Matches x r)
    (hrow : ∀ x, h.inputs .left l x → ρ' x = ρ x)
    (hshown : n'.Shown ρ' ((h.hear .left .insert l).fresh .left)) :
    n'.Books (h.hear .left .insert l) ρ' := by
  have hnone := hb.get?_of_unknown hl
  have hother : ∀ σ, σ ≠ .left → n'.index σ = n.index σ := by
    rintro (_ | _) hσ
    · exact absurd rfl hσ
    · exact hright
  have hkeys : ∀ side t, ¬(side = .left ∧ t = l) →
      (n'.index side).keys.get? t = (n.index side).keys.get? t := fun side t =>
    Hearing.get?_insert (show n'.index .left = _ from hleft) hother
  have hkey : n'.left.keys.get? l = some k := by
    rw [hleft]
    exact (TupleIndex.Holds.keys_insert n.left l l k).trans (if_pos rfl)
  have hholds := Hearing.holds_insert hb.holds hl (show n'.index .left = _ from hleft) hother
  have hbelong : ∀ x r, x ≠ l → (n'.Belong x r ↔ n.Belong x r) := fun x r hne =>
    TupleIndex.meet_congr (hkeys .left x fun h => hne h.2) (hkeys .right r fun h => by cases h.1)
  have hmeet : ∀ r, n'.Belong l r ↔ r ∈ n.right.withKey k := fun r =>
    ((hholds .right).meet_iff_mem_right hkey BEq.rfl).trans (by rw [index, hright])
  refine ⟨hholds, fun side t hf => ?_, ht, hlinks, fun x r => ?_, fun x r hm => ?_,
    fun x r hx hr hlr => ?_, hshown⟩
  · rw [hindexer, hrow t ⟨side, hf.imp id (h.known_of_fresh side t)⟩]
    by_cases hlt : side = .left ∧ t = l
    · obtain ⟨rfl, rfl⟩ := hlt
      exact ⟨k, k, hkey, hk, BEq.rfl⟩
    · rw [hkeys side t hlt]
      exact hb.keys side t (hf.resolve_left hlt)
  · refine (hmem x r).trans ?_
    rw [hmatch, hb.mem_iff]
    by_cases hlx : l = x
    · subst hlx
      simp [matches_of_none hnone]
    · simp [hlx, Ne.symm hlx]
  · rw [hmatch] at hm
    split at hm
    · rename_i hlx
      exact hlx ▸ (hmeet r).mpr (hmatched.sublist.mem hm)
    · rename_i hlx
      exact (hbelong x r (Ne.symm hlx)).mpr (hb.belong x r hm)
  · have hr : h.fresh .right r := hr.resolve_left fun h => by cases h.1
    rw [hindexer, hmatch, hrow x ⟨.left, hx.imp id (h.known_of_fresh .left x)⟩,
      hrow r ⟨.right, Or.inr (h.known_of_fresh .right r hr)⟩]
    by_cases hlx : l = x
    · subst hlx
      rw [if_pos rfl]
      exact hmatched.accepts r ((hmeet r).mp hlr)
    · rw [if_neg hlx]
      exact hb.inLine x r (hx.resolve_left fun h => hlx h.2.symm) hr
        ((hbelong x r (Ne.symm hlx)).mp hlr)

theorem countLeft_ensures (output : Option TupleId) {rowChanged : Bool}
    (hb : n.Books h s.arena.row) (hl : ¬h.known .left l)
    (hc : s.Clear (output.toList ++ n.outputIds) (h.inputs .left l))
    (hchanged : rowChanged = true ∨ output = none) (hW : W (s.arena.row l)) :
    (n.countLeft l output rowChanged).Ensures s
      (n.Heard W (output.toList ++ n.outputIds) s (h.hear .left .insert l))
      (n.indexer.FailsOn n.right .left s.arena.row l) := by
  have hnone := hb.get?_of_unknown hl
  refine .of_bind (.of_rowOf (.of_bind (.of_except (fun k hk => ?_) fun f hf => Or.inl hf)))
  refine .of_bind ((matchingRights_ensures _ _ ((hb.holds .right).nodup k)).mono ?_ fun _ hf =>
    Or.inr ⟨k, hk, hf⟩)
  rintro matched s' ⟨rfl, hmatched⟩
  have hnodup : matched.Nodup := hmatched.sublist.nodup ((hb.holds .right).nodup k)
  obtain ⟨hlinks, hmem⟩ := hb.links.linkAll l matched
  let entry : LeftEntry := ⟨matched.length, matched, output⟩
  let n₁ : ExistsNode V :=
    { n with
      left := n.left.insert l k
      rights := link l n.rights matched
      lefts := n.lefts.insert l entry }
  have hids : (output.toList ++ n.outputIds).Perm n₁.outputIds := by
    have hperm := outputIds_withEntry n l entry
    rw [outputIds_of_none hnone] at hperm
    exact hperm.symm
  have htally : n₁.Tally ((h.hear .left .insert l).known .left) (· = l) :=
    ((hb.tally.withEntry (l := l) entry ((h.hear .left .insert l).known .left)
      (fun x => by simp [Hearing.hear]) hnodup rfl).loosen fun x hx => hx.elim id False.elim).congr
        rfl rfl fun _ => Iff.rfl
  have hfresh : ∀ x, (h.hear .left .insert l).fresh .left x → h.inputs .left l x := fun x hx =>
    ⟨.left, hx.imp id (h.known_of_fresh .left x)⟩
  have hshown : n₁.Shown s'.arena.row fun x =>
      (h.hear .left .insert l).fresh .left x ∧ (x = l → rowChanged = false) := by
    rintro x e o hx ho ⟨hf, hxl⟩
    have hx : (n.withEntry l entry).lefts.get? x = some e := hx
    rw [get?_withEntry] at hx
    split at hx
    · rename_i hlx
      obtain rfl := Option.some.inj hx
      have hout : output = some o := ho
      rcases hchanged with hch | hch
      · rw [hxl hlx.symm] at hch
        cases hch
      · rw [hch] at hout
        cases hout
    · rename_i hlx
      exact hb.shown x e o hx ho (hf.resolve_left fun h => hlx h.2.symm)
  refine (refreshOutput_ensures (W := W) (n := n₁) htally (Or.inl ⟨rfl, rfl⟩)
    (hc.work (W := W) (.perm .refl hids)) hfresh hshown hW).mono ?_ fun _ hf => hf
  rintro n' s₂ ⟨w, halike, ht, hshown', hmatches⟩
  have hmatch : ∀ x r, n'.Matches x r ↔ if l = x then r ∈ matched else n.Matches x r :=
    fun x r => (hmatches x r).trans (matches_withEntry n entry)
  have hw := (Staging.Work.refl.perm hids).trans w
  exact ⟨hw, books_enter hb hl halike.indexer halike.left halike.right hk ht
    (halike.rights ▸ hlinks) (fun x r => halike.rights ▸ hmem x r) hmatched hmatch
    (fun x hx => hc.row hw hx) hshown', halike.indexer, halike.shouldExist⟩

omit [Std.TransOrd V] in
theorem forgetLeft_right : (n.forgetLeft l).1.right = n.right := by
  unfold forgetLeft
  split <;> rfl

omit [Std.TransOrd V] in
theorem onLeft_retract_of_none (hout : (n.forgetLeft l).2 = none) :
    n.onLeft .retract l = return (n.forgetLeft l).1 := by
  obtain ⟨n', hn'⟩ : ∃ n', n.forgetLeft l = (n', none) := ⟨_, Prod.ext rfl hout⟩
  unfold onLeft
  rw [hn']

omit [Std.TransOrd V] in
theorem onLeft_retract_of_some {out : TupleId} (hout : (n.forgetLeft l).2 = some out) :
    n.onLeft .retract l = do
      Stage.retract out
      return (n.forgetLeft l).1 := by
  obtain ⟨n', hn'⟩ : ∃ n', n.forgetLeft l = (n', some out) := ⟨_, Prod.ext rfl hout⟩
  unfold onLeft
  rw [hn']

theorem onLeft_ensures {e : Event} (hb : n.Books h s.arena.row) (he : h.Expects .left e l)
    (hc : s.Clear n.outputIds (h.inputs .left l)) (hW : W (s.arena.row l)) :
    (n.onLeft e l).Ensures s (n.Heard W n.outputIds s (h.hear .left e l))
      fun f => e ≠ .retract ∧ n.indexer.FailsOn n.right .left s.arena.row l f := by
  obtain ⟨hb₁, hids, hindexer, hexist⟩ := forgetLeft_books (l := l) hb
  have hc₁ : s.Clear ((n.forgetLeft l).2.toList ++ (n.forgetLeft l).1.outputIds)
      (h.inputs .left l) := hc.work (W := W) (.perm .refl hids)
  cases e with
  | insert =>
      exact (countLeft_ensures none hb he hc (Or.inr rfl) hW).mono (fun _ _ => id)
        fun _ hf => ⟨nofun, hf⟩
  | update =>
      have hsub : ∀ x, (h.hear .left .retract l).inputs .left l x → h.inputs .left l x :=
        fun x ⟨σ, hx⟩ => ⟨σ, hx.imp id And.left⟩
      have hcount := countLeft_ensures (W := W) _ hb₁ (fun hx => hx.2 ⟨rfl, rfl⟩)
        (hc₁.mono hsub) (Or.inl rfl) hW
      rw [hindexer, forgetLeft_right] at hcount
      refine hcount.mono ?_ fun _ hf => ⟨nofun, hf⟩
      rintro n' s' ⟨w, hb', hindexer', hexist'⟩
      refine ⟨(Staging.Work.refl.perm hids).trans w, hb'.frame (fun σ x => ?_)
        (fun σ x hx => ⟨?_, rfl⟩) fun _ _ => rfl, hindexer'.trans hindexer, hexist'.trans hexist⟩
      · have hkeep : σ = .left ∧ x = l → h.known σ x := fun hx => hx.1 ▸ hx.2 ▸ he
        change _ ∨ (h.known σ x ∧ ¬_) ↔ _ ∨ h.known σ x
        tauto
      · change _ ∨ (h.fresh σ x ∧ ¬_)
        have hx : (σ = .left ∧ x = l) ∨ h.fresh σ x := hx
        tauto
  | retract =>
      cases hout : (n.forgetLeft l).2 with
      | none =>
          rw [hout] at hids
          rw [onLeft_retract_of_none hout]
          exact .of_pure ⟨.perm .refl hids, hb₁, hindexer, hexist⟩
      | some out =>
          rw [hout] at hids hc₁
          have ha := hc₁.tended.active out (by simp)
          have hrow := Staging.row_retracted ha
          have w : Staging.Work W s n.outputIds (s.retracted out) (n.forgetLeft l).1.outputIds := by
            have w := (Staging.Work.refl (W := W) (s := s)).perm hids |>.retract (t := out) (by simp)
            simpa using w
          rw [onLeft_retract_of_some hout]
          refine .of_bind (.of_retract ha (.of_pure ⟨w, ?_, hindexer, hexist⟩))
          rwa [show (s.retracted out).arena.row = s.arena.row from funext hrow]

end Left

section Right

variable {W : Row V → Prop} {n n' : ExistsNode V} {s : Staging V} {h h' : Hearing} {r : TupleId}
  {I : TupleId → Prop}

/-- The books hold again once a right tuple is matched with the left tuples in `current`. -/
theorem books_right [Std.TransOrd V] {ρ ρ' : TupleId → Row V} (current : List TupleId)
    (hb : n.Books h ρ) (hindexer : n'.indexer = n.indexer) (hleft : n'.left = n.left)
    (hright : n'.right.Holds (h'.known .right))
    (hother : ∀ x, x ≠ r → n'.right.keys.get? x = n.right.keys.get? x)
    (hknown : ∀ x, h'.known .left x ↔ h.known .left x)
    (hfresh : ∀ side x, h'.fresh side x → ρ' x = ρ x ∧ (h.fresh side x ∨ side = .right ∧ x = r))
    (hkey : h'.fresh .right r → ∃ k k', n'.right.keys.get? r = some k ∧
      n.indexer.rightKey (ρ r) = .ok k' ∧ (k == k') = true)
    (htally : n'.Tally (h.known .left) fun _ => False) (hlinks : Links n'.rights)
    (hmem : ∀ l x, l ∈ n'.rights.getD x [] ↔ if x = r then l ∈ current else l ∈ n.rights.getD x [])
    (hmatch : ∀ l x, n'.Matches l x ↔ if x = r then l ∈ current else n.Matches l x)
    (hmeet : ∀ l ∈ current, n'.Belong l r)
    (htried : h'.fresh .right r → ∀ l, n'.Belong l r →
      ∃ passes, n.indexer.accepts (ρ l) (ρ r) = .ok passes ∧ (passes = true ↔ l ∈ current))
    (hshown : n'.Shown ρ' (h.fresh .left)) : n'.Books h' ρ' := by
  have hbelong : ∀ l x, x ≠ r → (n'.Belong l x ↔ n.Belong l x) := fun l x hne =>
    TupleIndex.meet_congr (by rw [hleft]) (hother x hne)
  have hfreshLeft : ∀ x, h'.fresh .left x → h.fresh .left x := fun x hx =>
    (hfresh .left x hx).2.resolve_right fun hx => by cases hx.1
  refine ⟨?_, ?_, htally.congr rfl rfl fun x => (hknown x).symm, hlinks, fun l x => ?_, fun l x hm => ?_,
    fun l x hl hx hlx => ?_, fun x e o hx ho hf => hshown x e o hx ho (hfreshLeft x hf)⟩
  · rintro (_ | _)
    · rw [index, hleft]
      exact (hb.holds .left).congr fun x => (hknown x).symm
    · exact hright
  · rintro (_ | _) x hx
    · rw [index, hleft, hindexer, (hfresh .left x hx).1]
      exact hb.keys .left x (hfreshLeft x hx)
    · obtain ⟨hrow, hf⟩ := hfresh .right x hx
      rw [index, hindexer, hrow]
      by_cases hxr : x = r
      · subst hxr
        exact hkey hx
      · rw [hother x hxr]
        exact hb.keys .right x (hf.resolve_right fun hf => hxr hf.2)
  · rw [hmem, hmatch]
    split
    · rfl
    · exact hb.mem_iff l x
  · rw [hmatch] at hm
    split at hm
    · rename_i hxr
      exact hxr ▸ hmeet l hm
    · rename_i hxr
      exact (hbelong l x hxr).mpr (hb.belong l x hm)
  · obtain ⟨hrowl, -⟩ := hfresh .left l hl
    obtain ⟨hrowx, hf⟩ := hfresh .right x hx
    rw [hindexer, hrowl, hrowx, hmatch]
    by_cases hxr : x = r
    · subst hxr
      rw [if_pos rfl]
      exact htried hx l hlx
    · rw [if_neg hxr]
      exact hb.inLine l x (hfreshLeft l hl) (hf.resolve_right fun hf => hxr hf.2)
        ((hbelong l x hxr).mp hlx)

variable [Std.TransOrd V]

/-- The case in which the right tuple is there and has just been tried on the left tuples it
meets. -/
theorem books_matched {ρ ρ' : TupleId → Row V} {k : Key V} {matched : List TupleId}
    (hb : n.Books h ρ) (hk : n.indexer.rightKey (ρ r) = .ok k) (hindexer : n'.indexer = n.indexer)
    (hleft : n'.left = n.left) (hright : n'.right.Holds ((h.hear .right .insert r).known .right))
    (hkeys : ∀ x, n'.right.keys.get? x = if r = x then some k else n.right.keys.get? x)
    (hmatched : Chosen (fun l => n.indexer.accepts (ρ l) (ρ r)) (n.left.withKey k) matched)
    (hrow : ∀ x, h.inputs .right r x → ρ' x = ρ x)
    (htally : n'.Tally (h.known .left) fun _ => False) (hlinks : Links n'.rights)
    (hmem : ∀ l x, l ∈ n'.rights.getD x [] ↔ if x = r then l ∈ matched else l ∈ n.rights.getD x [])
    (hmatch : ∀ l x, n'.Matches l x ↔ if x = r then l ∈ matched else n.Matches l x)
    (hshown : n'.Shown ρ' (h.fresh .left)) : n'.Books (h.hear .right .insert r) ρ' := by
  have hkey : n'.right.keys.get? r = some k := (hkeys r).trans (if_pos rfl)
  have hmeet : ∀ l, n'.Belong l r ↔ l ∈ n.left.withKey k := fun l => by
    rw [Belong, hleft]
    exact (hb.holds .left).meet_iff_mem_left hkey BEq.rfl
  refine books_right matched hb hindexer hleft hright ?_ ?_ ?_ ?_ htally hlinks hmem
    hmatch ?_ ?_ hshown
  · exact fun x hx => (hkeys x).trans (if_neg (Ne.symm hx))
  · simp [Hearing.hear]
  · exact fun side x hx => ⟨hrow x ⟨side, hx.imp id (h.known_of_fresh side x)⟩, hx.symm⟩
  · exact fun _ => ⟨k, k, hkey, hk, BEq.rfl⟩
  · exact fun l hl => (hmeet l).mpr (hmatched.sublist.mem hl)
  · exact fun _ l hl => hmatched.accepts l ((hmeet l).mp hl)

theorem onRight_insert_ensures (hb : n.Books h s.arena.row) (hr : ¬h.known .right r)
    (hc : s.Clear n.outputIds (h.inputs .right r))
    (hW : ∀ l, h.known .left l → W (s.arena.row l)) :
    (n.onRight .insert r).Ensures s (n.Heard W n.outputIds s (h.hear .right .insert r))
      (n.indexer.FailsOn n.left .right s.arena.row r) := by
  have hI : ∀ l, h.known .left l → h.inputs .right r l := fun l hl => ⟨.left, Or.inr hl⟩
  have hunmatched : ∀ l, ¬n.Matches l r := fun l hm =>
    hr ((hb.holds .right).known_of_meet_right (hb.belong l r hm))
  refine .of_bind (.of_rowOf (.of_bind (.of_except (fun k hk => ?_) fun f hf => Or.inl hf)))
  have hholds := ((hb.holds .right).insert (k := k) hr).congr
    (K := (h.hear .right .insert r).known .right) fun x => by simp [Hearing.hear]
  refine .of_bind ((matchingLefts_ensures _ _ ((hb.holds .left).nodup k)).mono ?_ fun _ hf =>
    Or.inr ⟨k, hk, hf⟩)
  rintro matched s₁ ⟨rfl, hmatched⟩
  have hnodup := hmatched.sublist.nodup ((hb.holds .left).nodup k)
  have hknown : ∀ l ∈ matched, h.known .left l := fun l hl =>
    (hb.holds .left).known_of_mem (hmatched.sublist.mem hl)
  refine .of_bind ((attachAll_ensures (W := W) (r := r) (n := { n with right := n.right.insert r k })
    matched (hb.tally.congr rfl rfl fun _ => Iff.rfl) hc hb.shown
    (fun x hx => hI x (h.known_of_fresh .left x hx)) hnodup fun l hl =>
      ⟨hknown l hl, hunmatched l, hI l (hknown l hl), hW l (hknown l hl)⟩).mono ?_ fun _ hf => hf)
  rintro n' s' ⟨w, halike, ht, hshown, hmatches⟩
  refine .of_pure ⟨w, ?_, halike.indexer, halike.shouldExist⟩
  refine books_matched (r := r) hb hk halike.indexer halike.left (halike.right ▸ hholds) ?_ hmatched
    (fun x hx => hc.row w hx) (ht.congr rfl rfl fun _ => Iff.rfl) ?_ ?_ ?_ hshown
  · intro x
    rw [halike.right]
    exact TupleIndex.Holds.keys_insert n.right r x k
  · rw [halike.rights]
    exact hb.links.insert hnodup r
  · intro l x
    rw [halike.rights]
    change l ∈ (n.rights.insert r matched).getD x [] ↔ _
    rw [Table.getD_insert]
    simp only [@eq_comm _ x]
    split <;> rfl
  · intro l x
    refine (hmatches l x).trans ?_
    by_cases hxr : x = r
    · subst hxr
      rw [if_pos rfl]
      exact ⟨fun h => h.elim And.right fun hm => absurd hm (hunmatched l), fun h => Or.inl ⟨rfl, h⟩⟩
    · rw [if_neg hxr]
      exact ⟨fun h => h.resolve_left fun h => hxr h.1, Or.inr⟩

theorem onRight_update_ensures (hb : n.Books h s.arena.row) (hr : h.known .right r)
    (hc : s.Clear n.outputIds (h.inputs .right r))
    (hW : ∀ l, h.known .left l → W (s.arena.row l)) :
    (n.onRight .update r).Ensures s (n.Heard W n.outputIds s (h.hear .right .update r))
      (n.indexer.FailsOn n.left .right s.arena.row r) := by
  have hI : ∀ l, h.known .left l → h.inputs .right r l := fun l hl => ⟨.left, Or.inr hl⟩
  have hfresh : ∀ x, h.fresh .left x → h.inputs .right r x := fun x hx =>
    hI x (h.known_of_fresh .left x hx)
  have hprevious : ∀ l, l ∈ n.rights.getD r [] ↔ n.Matches l r := fun l => hb.mem_iff l r
  have hknown : ∀ l ∈ n.rights.getD r [], h.known .left l := fun l hl =>
    (hb.holds .left).known_of_meet_left (hb.belong l r ((hb.mem_iff l r).mp hl))
  refine .of_bind (.of_rowOf (.of_bind (.of_except (fun k hk => ?_) fun f hf => Or.inl hf)))
  have hholds := (((hb.holds .right).remove r).insert (k := k) fun hx => hx.2 rfl).congr
    (K := (h.hear .right .update r).known .right) fun x => by
      change x = r ∨ h.known .right x ∧ x ≠ r ↔ Side.right = .right ∧ x = r ∨ h.known .right x
      tauto
  refine .of_bind ((matchingLefts_ensures _ _ ((hb.holds .left).nodup k)).mono ?_ fun _ hf =>
    Or.inr ⟨k, hk, hf⟩)
  rintro current s₁ ⟨rfl, hcurrent⟩
  have hnodup := hcurrent.sublist.nodup ((hb.holds .left).nodup k)
  have hknown' : ∀ l ∈ current, h.known .left l := fun l hl =>
    (hb.holds .left).known_of_mem (hcurrent.sublist.mem hl)
  -- Detaching is about what matched and does not any more, attaching about what did not match.
  have hgone : ∀ l, l ∈ (n.rights.getD r []).filter (!current.contains ·) ↔
      n.Matches l r ∧ l ∉ current := fun l => by simp [hprevious]
  have hnew : ∀ l, l ∈ current.filter (!(n.rights.getD r []).contains ·) ↔
      l ∈ current ∧ ¬n.Matches l r := fun l => by simp [hprevious]
  refine .of_bind ((detachAll_ensures (W := W) (r := r) (n := { n with
    right := (n.right.remove r).insert r k, rights := n.rights.erase r }) _
    (hb.tally.congr rfl rfl fun _ => Iff.rfl) hc hb.shown hfresh ((hb.links.nodup r).filter _)
    fun l hl => ?_).mono ?_ fun _ hf => hf)
  · have hl := (List.mem_filter.mp hl).1
    exact ⟨(hprevious l).mp hl, hI l (hknown l hl), hW l (hknown l hl)⟩
  · intro n₁ s₂ h₁
    refine .of_bind ((attachAll_ensures (W := W) (r := r) _ h₁.tally
      (hc.work h₁.work) h₁.shown hfresh (hnodup.filter _) fun l hl => ?_).mono ?_ fun _ hf => hf)
    · obtain ⟨hl, hnot⟩ := (hnew l).mp hl
      have hin := hI l (hknown' l hl)
      refine ⟨hknown' l hl, fun hm => hnot ((h₁.matches_iff l r).mp hm).1, hin, ?_⟩
      rw [hc.row h₁.work hin]
      exact hW l (hknown' l hl)
    · intro n' s' h₂
      obtain ⟨w, halike, ht, hshown, -⟩ := h₁.trans h₂
      refine .of_pure ⟨w, ?_, halike.indexer, halike.shouldExist⟩
      refine books_matched (r := r) hb hk halike.indexer halike.left (halike.right ▸ hholds) ?_
        hcurrent (fun x hx => hc.row w hx) (ht.congr rfl rfl fun _ => Iff.rfl) ?_ ?_ ?_ hshown
      · intro x
        rw [halike.right]
        exact (hb.holds .right).keys_replace r x k
      · rw [halike.rights]
        exact (hb.links.erase r).insert hnodup r
      · intro l x
        rw [halike.rights]
        change l ∈ ((n.rights.erase r).insert r current).getD x [] ↔ _
        rw [hb.links.getD_replace]
        simp only [@eq_comm _ x]
        split <;> rfl
      · intro l x
        refine (h₂.matches_iff l x).trans ?_
        rw [h₁.matches_iff, hgone, hnew]
        change _ ∨ n.Matches l x ∧ _ ↔ _
        by_cases hxr : x = r
        · subst hxr
          rw [if_pos rfl]
          tauto
        · rw [if_neg hxr]
          tauto

theorem onRight_retract_ensures (hb : n.Books h s.arena.row) {R : Fault → Prop}
    (hc : s.Clear n.outputIds (h.inputs .right r)) (hW : ∀ l, h.known .left l → W (s.arena.row l)) :
    (n.onRight .retract r).Ensures s (n.Heard W n.outputIds s (h.hear .right .retract r)) R := by
  have hI : ∀ l, h.known .left l → h.inputs .right r l := fun l hl => ⟨.left, Or.inr hl⟩
  have hknown : ∀ l ∈ n.rights.getD r [], h.known .left l := fun l hl =>
    (hb.holds .left).known_of_meet_left (hb.belong l r ((hb.mem_iff l r).mp hl))
  have hholds := ((hb.holds .right).remove r).congr
    (K := (h.hear .right .retract r).known .right) fun x => by simp [Hearing.hear]
  have hkeys := (hb.holds .right).keys_remove r
  refine (detachAll_ensures (W := W) (n := { n with
    right := n.right.remove r, rights := n.rights.erase r }) _
    (hb.tally.congr rfl rfl fun _ => Iff.rfl) hc hb.shown
    (fun x hx => hI x (h.known_of_fresh .left x hx)) (hb.links.nodup r) fun l hl =>
      ⟨(hb.mem_iff l r).mp hl, hI l (hknown l hl), hW l (hknown l hl)⟩).mono ?_ fun _ hf => hf
  rintro n' s' ⟨w, halike, ht, hshown, hmatches⟩
  refine ⟨w, ?_, halike.indexer, halike.shouldExist⟩
  refine books_right (r := r) [] hb halike.indexer halike.left
    (halike.right ▸ hholds) ?_ ?_ ?_ ?_ ht ?_ ?_ ?_ (fun l hl => by cases hl) ?_ hshown
  · intro x hx
    rw [halike.right]
    exact (hkeys x).trans (if_neg (Ne.symm hx))
  · simp [Hearing.hear]
  · exact fun side x hx => ⟨hc.row w ⟨side, Or.inr (h.known_of_fresh side x hx.1)⟩, Or.inl hx.1⟩
  · exact fun hf => absurd ⟨rfl, rfl⟩ hf.2
  · rw [halike.rights]
    exact hb.links.erase r
  · intro l x
    rw [halike.rights]
    change l ∈ (n.rights.erase r).getD x [] ↔ _
    rw [hb.links.getD_erase]
    simp only [@eq_comm _ x]
    split <;> rfl
  · intro l x
    refine (hmatches l x).trans ?_
    by_cases hxr : x = r
    · subst hxr
      rw [if_pos rfl, iff_false_right List.not_mem_nil]
      exact fun hm => hm.2 ⟨rfl, (hb.mem_iff l x).mpr hm.1⟩
    · rw [if_neg hxr]
      exact ⟨And.left, fun hm => ⟨hm, fun hx => hxr hx.1⟩⟩
  · exact fun hf => absurd ⟨rfl, rfl⟩ hf.2

theorem onEvent_ensures {side : Side} {e : Event} {t : TupleId} (hb : n.Books h s.arena.row)
    (he : h.Expects side e t) (hc : s.Clear n.outputIds (h.inputs side t))
    (hW : ∀ l, h.Input side t .left l → W (s.arena.row l)) :
    (n.onEvent side e t).Ensures s (n.Heard W n.outputIds s (h.hear side e t))
      fun f => e ≠ .retract ∧ n.indexer.FailsOn (n.opposite side) side s.arena.row t f := by
  have hW' : ∀ l, h.known .left l → W (s.arena.row l) := fun l hl => hW l (Or.inr hl)
  cases side with
  | left => exact onLeft_ensures hb he hc (hW t (Or.inl ⟨rfl, rfl⟩))
  | right =>
      cases e with
      | insert =>
          exact (onRight_insert_ensures hb he hc hW').mono (fun _ _ => id) fun _ hf => ⟨nofun, hf⟩
      | update =>
          exact (onRight_update_ensures hb he hc hW').mono (fun _ _ => id) fun _ hf => ⟨nofun, hf⟩
      | retract => exact onRight_retract_ensures hb hc hW'

end Right

end ConstraintScoring.ExistsNode
