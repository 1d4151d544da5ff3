import ConstraintScoring.Proofs.Node.Life
import ConstraintScoring.Proofs.Node.Rows

/-!
# The pairs of a join

However the events of the left and the right tuples of a join are interleaved, and whatever rows
were replaced before it was told, once it was told of everything its outputs are the pairs of its
inputs that belong together.
-/

namespace ConstraintScoring.JoinNode

variable {V : Type} [Cell V]

def reader : Reader V (JoinNode V) := ⟨onEvent, fun _ => True⟩

/-- The join has made of its inputs what it should: an output for each pair that belongs together,
which both tables of pairs know, and indices of exactly the inputs by their current keys. -/
structure Complete (j : JoinIndexer V) (c : Scene V (JoinNode V)) : Prop where
  output_iff : ∀ l r, (∃ out, c.node.outputOf l r = some out) ↔
    c.heard.known .left l ∧ c.heard.known .right r ∧ j.Joins (c.row l) (c.row r)
  output : ∀ l r out, c.node.outputOf l r = some out →
    c.Output out ∧ c.row out = c.row l ++ c.row r
  pair : ∀ out, c.Output out → ∃! p : TupleId × TupleId, c.node.outputOf p.1 p.2 = some out
  byRight : ∀ l r, l ∈ c.node.byRight.getD r [] ↔ ∃ out, c.node.outputOf l r = some out
  byRight_nodup : ∀ r, (c.node.byRight.getD r []).Nodup
  indexed : ∀ side t, (∃ k, (c.node.index side).keys.get? t = some k) ↔ c.heard.known side t
  key : ∀ side t k, (c.node.index side).keys.get? t = some k →
    ∃ k', j.key side (c.row t) = .ok k' ∧ (k == k') = true
  withKey : ∀ side t k, t ∈ (c.node.index side).withKey k ↔
    c.heard.known side t ∧ ∃ k', j.key side (c.row t) = .ok k' ∧ (k' == k) = true
  withKey_nodup : ∀ side k, ((c.node.index side).withKey k).Nodup

variable [Std.TransOrd V] {j : JoinIndexer V} {c : Scene V (JoinNode V)}

theorem keeps (j : JoinIndexer V) : (reader (V := V)).Keeps outputIds
    (fun n h ρ => n.Books h ρ ∧ n.indexer = j) j.Raises where
  frame hb hknown hfresh houts := ⟨hb.1.frame hknown hfresh houts, hb.2⟩
  onEvent := by
    rintro n h s side e t - ⟨hb, rfl⟩ he hc
    refine (onEvent_ensures (W := fun _ => True) hb he hc fun _ _ _ _ => trivial).mono ?_
      fun _ hf => hf.2.raises
    exact fun n' s' ⟨hw, hb', hindexer⟩ => ⟨hw, hb', hindexer⟩

/-- What a join has come to in its life. -/
abbrev Kept (j : JoinIndexer V) (c : Scene V (JoinNode V)) : Prop :=
  c.Kept outputIds fun n h ρ => n.Books h ρ ∧ n.indexer = j

theorem kept_of_lives (hc : reader.Lives (.new j) c) : Kept j c :=
  (keeps j).lives rfl (fun _ => ⟨books_new j fun _ _ => id, rfl⟩) hc

theorem Kept.complete (hk : Kept j c) (hu : c.UpToDate) : Complete j c := by
  obtain ⟨hb, rfl⟩ := hk.books
  have hknown : ∀ l r out, c.node.outputOf l r = some out →
      c.heard.known .left l ∧ c.heard.known .right r := fun l r out hout =>
    ⟨(hb.holds .left).known_of_meet_left (hb.paired.belong l r out hout),
      (hb.holds .right).known_of_meet_right (hb.paired.belong l r out hout)⟩
  have hkey : ∀ side t k, (c.node.index side).keys.get? t = some k →
      ∃ k', c.node.indexer.key side (c.row t) = .ok k' ∧ (k == k') = true := by
    intro side t k ht
    obtain ⟨l, k', hl, hk', hsame⟩ :=
      hb.keys side t (hu side t (((hb.holds side).known_iff t).mp ⟨k, ht⟩))
    rw [ht] at hl
    cases hl
    exact ⟨k', hk', hsame⟩
  refine ⟨fun l r => ⟨?_, ?_⟩, fun l r out hout => ⟨?_, ?_⟩, fun out hout => ?_,
    hb.paired.mem_iff, hb.paired.links.nodup, fun side => (hb.holds side).known_iff, hkey,
    fun side t k => ?_, fun side => (hb.holds side).nodup⟩
  · rintro ⟨out, hout⟩
    obtain ⟨hl, hr⟩ := hknown l r out hout
    exact ⟨hl, hr, (hb.output_iff_joins (hu .left l hl) (hu .right r hr)).mp ⟨out, hout⟩⟩
  · exact fun ⟨hl, hr, hj⟩ => (hb.output_iff_joins (hu .left l hl) (hu .right r hr)).mpr hj
  · exact hk.output_iff.mpr (Table.mem_leaves_of_at? hout)
  · obtain ⟨hl, hr⟩ := hknown l r out hout
    obtain ⟨-, -, -, hrow⟩ := hb.inLine l r ⟨hu .left l hl, hu .right r hr,
      hb.paired.belong l r out hout⟩
    exact hrow out hout
  · obtain ⟨l, r, hlr⟩ := hb.paired.outputs.mem_leaves.mp (hk.output_iff.mp hout)
    refine ⟨(l, r), hlr, fun p hp => ?_⟩
    obtain ⟨hl, hr⟩ := hb.paired.outputs.at?_inj hk.tended.nodup hp hlr
    exact Prod.ext hl hr
  · rw [(hb.holds side).mem_withKey, ← (hb.holds side).known_iff]
    constructor
    · rintro ⟨l, hl, hlk⟩
      obtain ⟨k', hk', hsame⟩ := hkey side t l hl
      exact ⟨⟨l, hl⟩, k', hk', BEq.trans (BEq.symm hsame) hlk⟩
    · rintro ⟨⟨l, hl⟩, k', hk', hsame⟩
      obtain ⟨k'', hk'', hsame'⟩ := hkey side t l hl
      rw [hk'] at hk''
      cases hk''
      exact ⟨l, hl, BEq.trans hsame' hsame⟩

/-- A join whose conditions can be tried on all rows is complete whenever it was told of everything,
and only a key that cannot be taken stops it. -/
theorem complete_of_lives (htotal : ∀ l r, ∃ passes, j.accepts l r = .ok passes)
    (hc : reader.Lives (.new j) c) :
    (c.UpToDate → Complete j c) ∧ ∀ side e t, c.Admits side e t →
      (∃ n s, (c.node.onEvent side e t).run.run c.staging = (.ok n, s)) ∨
        ∃ f s, (c.node.onEvent side e t).run.run c.staging = (.error f, s) ∧
          ∃ σ row, j.key σ row = .error f := by
  have hk := kept_of_lives hc
  refine ⟨hk.complete, fun side e t ha => ?_⟩
  refine (hk.proceeds (keeps j) trivial ha).imp id ?_
  rintro ⟨f, s, hrun, hkey | ⟨l, r, hlr⟩⟩
  · exact ⟨f, s, hrun, hkey⟩
  · obtain ⟨passes, hpass⟩ := htotal l r
    rw [hpass] at hlr
    cases hlr

/-- A coin is paired with itself after an exchange. -/
theorem complete_of_lives_coins : ∃ c, reader.Lives (.new Coin.sameWorth) c ∧ c.UpToDate ∧
    c.heard.known .left 0 ∧ c.heard.known .right 0 ∧ c.row 0 = [⟨7, false⟩] ∧
      Complete Coin.sameWorth c := by
  obtain ⟨c, log, hc, hl, hfacts⟩ := Scene.exists_of_play? kept_of_lives
    (valid_coinArena [⟨5, true⟩]) (by simp [Cue.exchange, Cue.Heard, reader])
    (by decide +kernel : ((Scene.born (.new Coin.sameWorth) (coinArena [⟨5, true⟩])).play? reader
      outputIds Cue.exchange).any fun p => (∀ x ∈ p.2.known, x ∈ p.2.fresh) ∧
        (.left, 0) ∈ p.2.known ∧ (.right, 0) ∈ p.2.known ∧ p.1.row 0 = [⟨7, false⟩])
  obtain ⟨hall, hleft, hright, hrow⟩ := of_decide_eq_true hfacts
  have hu := hl.upToDate hall
  have htotal : ∀ l r, ∃ passes, Coin.sameWorth.accepts l r = .ok passes := fun _ _ =>
    ⟨true, rfl⟩
  exact ⟨c, hc, hu, (hl.known_iff .left 0).mpr hleft, (hl.known_iff .right 0).mpr hright, hrow,
    (complete_of_lives htotal hc).1 hu⟩

end ConstraintScoring.JoinNode
