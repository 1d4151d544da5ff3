import ConstraintScoring.Proofs.Network.Ownership
import ConstraintScoring.Proofs.Session.Providers

/-!
# The tuples of a session

A session between its calls is at a moment of the network of its factory, and calls lead from one
moment to the next step by step. So what is known of the owners of tuples and of the events told at
every moment is known between calls and between any two deliveries.
-/

namespace ConstraintScoring

variable {V S : Type} [Cell V] [Score S]

/-- Rows have the width of every bridge that they come through. -/
def Moment.FitsBridges (g : DeclarationGraph V S) (net₀ : Network V S) (m : Moment V S) : Prop :=
  ∀ t, m.net.arena.Occupied t → ∀ e, net₀.Behind (m.owner t) e →
    Network.widthAt g net₀ e = (m.net.arena.row t).length

namespace Session

variable [Std.TransOrd V] [LawfulScore S] {N : Naming V} {settings : FactorySettings S}
  {domain : DomainModel V} {written : List (Written V S)} {chosen : List Constraint}
  {f : SessionFactory V S} {s : Session V S}

/-- A session that is not poisoned is at a moment of the network of its factory, from which changes
of facts and settling lead step by step. At each of these moments tuples are owned and events told as
they should be, and a step is stopped by nothing but the functions that nodes were given and by
numbers that leave their range. -/
theorem moments_orderly (hf : f.ProvidedBy N settings domain written chosen) (hs : Reached f s)
    (husable : s.poisoned = false) : ∃ net₀, Network.compile f.graph f.domain = .ok net₀ ∧
      (∃ m, s.At net₀ m ∧ Moment.Goes net₀ m Network.settle (fun _ m' => m'.Idle) ∧
        ∀ c fact, FactChange.Allowed c s.facts fact →
          Moment.Goes net₀ m (Network.stage c.stage fact) fun _ m' =>
            m'.At .rest (c.after s.facts fact)) ∧
      ∀ m, Moment.Reachable net₀ m → m.Orderly ∧ m.FitsBridges f.graph net₀ ∧
        ∀ fault, m.StoppedBy fault → (m.net.kindAt fault.node).Typed →
          (m.net.kindAt fault.node).Fails fault.fault ∨ SumFault fault.fault ∨
            ∃ step, fault.fault = .overflow step := by
  obtain ⟨-, -, b, ho⟩ := hf.origin
  obtain ⟨net₀, hcompiled, -, -, m, hm⟩ := hs.live ho.formed husable
  have hspec := Network.compile_spec hcompiled
  have hw := hspec.wired ho.formed
  refine ⟨net₀, hcompiled, ⟨m, hm, ?_, fun c fact hallowed => ?_⟩, fun m' hm' => ?_⟩
  · exact (Moment.settle_goes hm.reachable hw hspec.unused hm.phase).mono fun _ _ _ h => h.1
  · have hgoes := Moment.stage_goes hm.reachable hm.phase (hm.facts.symm ▸ hallowed)
    rwa [hm.facts] at hgoes
  · have hsound := hm'.sound hw hspec.unused
    refine ⟨hsound.orderly hw, fun t ht e he => ?_, fun fault hstopped htyped =>
      (hsound.raises hw hstopped).fails htyped⟩
    rw [hsound.widths t ht, hspec.width_eq ho.formed he]

/-- Among the changed coins tuples live and wait, and each of them has one owner. -/
theorem moments_orderly_coins : ∃ net₀ m, Coin.changed.At net₀ m ∧ m.Orderly ∧
    m.FitsBridges Coin.factory.graph net₀ ∧ Coin.changed.network.liveTuples ≠ 0 ∧
    ∃ id t, t ∈ (Coin.changed.network.queue id).toList ∧ ∀ id', m.Owns id' t ↔ id' = id := by
  obtain ⟨c, d, chosen, hf⟩ := Coin.factory_provided
  obtain ⟨hs, husable⟩ := Coin.changed_reached
  obtain ⟨net₀, -, ⟨m, hm, -⟩, hall⟩ := moments_orderly hf hs husable
  obtain ⟨horderly, hbridges, -⟩ := hall m hm.reachable
  have hlive : Coin.changed.network.liveTuples ≠ 0 := by decide +kernel
  have hqueued : (Coin.changed.network.queue 0).toList.head?.isSome := by decide +kernel
  obtain ⟨t, ht⟩ := Option.isSome_iff_exists.mp hqueued
  have hwaits := List.mem_of_mem_head? ht
  obtain ⟨hocc, howner⟩ := (horderly.queue 0).2 t (hm.net ▸ hwaits)
  refine ⟨net₀, m, hm, horderly, hbridges, hlive, 0, t, hwaits, fun id' => ?_⟩
  rw [horderly.owns_iff t hocc, howner]
  exact eq_comm

end Session

end ConstraintScoring
