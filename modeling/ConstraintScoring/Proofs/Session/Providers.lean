import ConstraintScoring.Proofs.Coin
import ConstraintScoring.Proofs.Session.Settled
import ConstraintScoring.Score.Simple

/-!
# Factories that are built by providers

What a provider declares can be read off the calls that it makes: each call adds one stream or one
constraint to those of the calls before it. The coins at the end are a small problem for the
statements about sessions.
-/

namespace ConstraintScoring

variable {V S α β : Type} [Cell V]

/-- With some streams and constraints at hand, a provider leaves an answer, streams and constraints
for which `Q` holds, whenever it comes to an end. -/
def Declaring.Provides (N : Naming V) (domain : DomainModel V) (streams : List (Stream × Query V))
    (written : List (Written V S)) (x : Declaring V S α)
    (Q : α → List (Stream × Query V) → List (Written V S) → Prop) : Prop :=
  ∀ id g a g', Provided N id domain g streams written → x.run.run g = (.ok a, g') →
    ∃ streams' written', Provided N id domain g' streams' written' ∧ Q a streams' written'

namespace Declaring.Provides

variable {N : Naming V} {domain : DomainModel V} {streams : List (Stream × Query V)}
  {written : List (Written V S)} {x : Declaring V S α} {f : α → Declaring V S β} {a : α}
  {Q : α → List (Stream × Query V) → List (Written V S) → Prop}
  {R : β → List (Stream × Query V) → List (Written V S) → Prop}

theorem pure (h : Q a streams written) :
    Provides N domain streams written (Pure.pure a : Declaring V S α) Q := by
  intro id g a' g' hg hrun
  obtain ⟨rfl, rfl⟩ := Outcome.answer_inj hrun
  exact ⟨streams, written, hg, h⟩

theorem bind (h : Provides N domain streams written x Q)
    (hf : ∀ a streams' written', Q a streams' written' →
      Provides N domain streams' written' (f a) R) :
    Provides N domain streams written (x >>= f) R := by
  intro id g b g' hg hrun
  obtain ⟨a, g₁, hx, hrun⟩ := Outcome.run_bind_eq_ok.mp hrun
  obtain ⟨streams', written', hg₁, hQ⟩ := h id g a g₁ hg hx
  exact hf a streams' written' hQ id g₁ b g' hg₁ hrun

theorem stream (call : StreamCall V (Stream × Query V)) (hs : ∀ s ∈ call.operands, s ∈ streams)
    (hr : call.Respects N domain) (ht : call.WellTyped) :
    Provides N domain streams written ((call.mapStreams (·.1)).run : Declaring V S Stream)
      fun u streams' written' => streams' = (u, call.query domain) :: streams ∧ written' = written :=
  fun _ _ _ _ hg hrun => ⟨_, _, .stream hg hs hr ht hrun, rfl, rfl⟩

theorem constraint {s : Stream × Query V} (hs : s ∈ streams) (ref : ConstraintRef) (weight : S)
    (terms : ConstraintTerms V S) :
    Provides N domain streams written (ConstraintFactory.constraint s.1 ref weight terms)
      fun c streams' written' =>
        streams' = streams ∧ written' = written ++ [⟨c, s.2, weight, terms⟩] :=
  fun _ _ _ _ hg hrun => ⟨_, _, .constraint hg hs hrun, rfl, rfl⟩

end Declaring.Provides

/-- The factory that a provider builds is one for the constraints that the provider has finished. -/
theorem SessionFactory.ProvidedBy.of_build [Score S] {N : Naming V} {settings : FactorySettings S}
    {domain : DomainModel V} {provider : Declaring V S (List Constraint)}
    {Q : List (Written V S) → Prop} {f : SessionFactory V S}
    (h : Declaring.Provides N domain [] [] provider fun _ _ written => Q written)
    (hf : build settings domain provider = .ok f) :
    ∃ written chosen, Q written ∧ f.ProvidedBy N settings domain written chosen := by
  obtain ⟨chosen, hprovider, hf⟩ := Outcome.bind_eq_ok.mp hf
  obtain ⟨streams, written, hg, hQ⟩ := h 0 _ chosen _ .new (Prod.ext hprovider rfl)
  exact ⟨written, chosen, hQ, .made hg hf⟩

namespace Coin

def domain : DomainModel Coin := DomainModel.empty.withClass ⟨"coin", none, id⟩

/-- Counting is the only function that is known by a name. -/
def naming : Naming Coin :=
  ⟨fun _ _ => False, fun _ _ => False, fun _ _ => False, fun _ _ c => c = number⟩

theorem naming_functional : naming.Functional :=
  ⟨fun _ _ _ h => h.elim, fun _ _ _ h => h.elim, fun _ _ _ h => h.elim,
    fun _ _ _ _ h h' => congrArg _ (h.trans h'.symm)⟩

def coins : Query Coin := domain.sourceQuery "coin" false

def goodCoins : Query Coin := .filter isGood.run coins

/-- Every good coin with every coin of its worth. -/
def pairs : Query Coin := .join (Joiner.equal worthOf worthOf).compile goodCoins coins

/-- The odd and the even good coins, with their number and their mean. -/
def worths : Query Coin := .group [parityOf.run] [number.unnamed, mean.unnamed] goodCoins

def pairTerms : ConstraintTerms Coin SimpleScore := { impact := .penalty }

def worthTerms : ConstraintTerms Coin SimpleScore where
  impact := .reward
  weigher := some fun
    | [_, n, x] => .ok (.ofInt (n.worth * x.worth))
    | _ => .error (.raised "no mean")

/-- The streams of good coins and of pairs. -/
def streams : Declaring Coin SimpleScore (Stream × Stream) := do
  let all ← ConstraintFactory.forEach "coin"
  let good ← ConstraintFactory.filter all isGood
  let both ← ConstraintFactory.join good all (.equal worthOf worthOf)
  return (good, both)

def worthParts : List (GroupPart Coin) :=
  [.key parityOf, .collector number, .collector mean]

def provider : Declaring Coin SimpleScore (List Constraint) := do
  let (good, both) ← streams
  let counted ← ConstraintFactory.group good worthParts
  let c ← ConstraintFactory.constraint both ⟨"", "pairs"⟩ SimpleScore.one pairTerms
  let d ← ConstraintFactory.constraint counted ⟨"", "worths"⟩ SimpleScore.one worthTerms
  return [c, d]

/-- A provider of the worths alone. -/
def worthProvider : Declaring Coin SimpleScore (List Constraint) := do
  let all ← ConstraintFactory.forEach "coin"
  let good ← ConstraintFactory.filter all isGood
  let counted ← ConstraintFactory.group good worthParts
  let d ← ConstraintFactory.constraint counted ⟨"", "worths"⟩ SimpleScore.one worthTerms
  return [d]

theorem respects {β : Type} {R : String → (Row Coin → Except Fault β) → Prop}
    {run : Row Coin → Except Fault β} : RowFunction.Respects R ⟨none, run⟩ :=
  fun _ hname => by cases hname

theorem mean_respects : (GroupPart.collector mean).Respects naming := by
  intro name hname
  cases hname

theorem worthParts_respect : ∀ p ∈ worthParts, p.Respects naming := by
  rintro p (_ | ⟨_, _ | ⟨_, _ | ⟨_, ⟨⟩⟩⟩⟩)
  · exact respects
  · exact rfl
  · exact mean_respects

theorem streams_provides : Declaring.Provides naming domain [] [] streams
    fun a ss written => (∃ all, ss = [(a.2, pairs), (a.1, goodCoins), (all, coins)]) ∧
      written = [] := by
  refine (Declaring.Provides.stream (.forEach "coin") (by simp [StreamCall.operands]) trivial
    trivial).bind ?_
  rintro all _ _ ⟨rfl, rfl⟩
  refine (Declaring.Provides.stream (.filter (all, coins) isGood)
    (by simp [StreamCall.operands, StreamCall.query, coins]) respects trivial).bind ?_
  rintro good _ _ ⟨rfl, rfl⟩
  refine (Declaring.Provides.stream (.join (good, goodCoins) (all, coins) (.equal worthOf worthOf))
    ?_ ⟨respects, respects⟩ trivial).bind ?_
  · rintro s (_ | ⟨_, _ | ⟨_, ⟨⟩⟩⟩)
    · exact .head _
    · exact .tail _ (.head _)
  rintro both _ _ ⟨rfl, rfl⟩
  exact .pure ⟨⟨all, rfl⟩, rfl⟩

theorem provider_provides : Declaring.Provides naming domain [] [] provider
    fun _ _ written => ∃ c d, written =
      [⟨c, pairs, SimpleScore.one, pairTerms⟩, ⟨d, worths, SimpleScore.one, worthTerms⟩] := by
  refine streams_provides.bind ?_
  rintro ⟨good, both⟩ _ _ ⟨⟨all, rfl⟩, rfl⟩
  refine (Declaring.Provides.stream (.group (good, goodCoins) worthParts) ?_ worthParts_respect
    trivial).bind ?_
  · rintro s (_ | ⟨_, ⟨⟩⟩)
    exact .tail _ (.head _)
  rintro counted _ _ ⟨rfl, rfl⟩
  refine (Declaring.Provides.constraint (s := (both, pairs)) (.tail _ (.head _)) _ _ _).bind ?_
  rintro c _ _ ⟨rfl, rfl⟩
  refine (Declaring.Provides.constraint (s := (counted, worths)) (.head _) _ _ _).bind ?_
  rintro d _ _ ⟨rfl, rfl⟩
  exact .pure ⟨c, d, rfl⟩

theorem worthProvider_provides : Declaring.Provides naming domain [] [] worthProvider
    fun _ _ written => ∃ d, written = [⟨d, worths, SimpleScore.one, worthTerms⟩] := by
  refine (Declaring.Provides.stream (.forEach "coin") (by simp [StreamCall.operands]) trivial
    trivial).bind ?_
  rintro all _ _ ⟨rfl, rfl⟩
  refine (Declaring.Provides.stream (.filter (all, coins) isGood)
    (by simp [StreamCall.operands, StreamCall.query, coins]) respects trivial).bind ?_
  rintro good _ _ ⟨rfl, rfl⟩
  refine (Declaring.Provides.stream (.group (good, goodCoins) worthParts) ?_ worthParts_respect
    trivial).bind ?_
  · rintro s (_ | ⟨_, ⟨⟩⟩)
    exact .head _
  rintro counted _ _ ⟨rfl, rfl⟩
  refine (Declaring.Provides.constraint (s := (counted, worths)) (.head _) _ _ _).bind ?_
  rintro d _ _ ⟨rfl, rfl⟩
  exact .pure ⟨d, rfl⟩

def factory : SessionFactory Coin SimpleScore :=
  (SessionFactory.build .default domain provider).toOption.get (by decide +kernel)

theorem factory_provided : ∃ c d chosen, factory.ProvidedBy naming .default domain
    [⟨c, pairs, SimpleScore.one, pairTerms⟩, ⟨d, worths, SimpleScore.one, worthTerms⟩] chosen := by
  obtain ⟨written, chosen, ⟨c, d, rfl⟩, hf⟩ :=
    SessionFactory.ProvidedBy.of_build provider_provides (Outcome.eq_ok_get _)
  exact ⟨c, d, chosen, hf⟩

theorem worth_eq {c c' : Coin} (h : SameCell c c') : c.worth = c'.worth :=
  Nat.compare_eq_eq.mp (eq_of_beq h)

theorem worths_eq {row row' : Row Coin} (h : SameRow row row') :
    row.map worth = row'.map worth := by
  have hworths := (Cell.sameAll_iff.mp h).imp fun _ _ => worth_eq
  rwa [← List.forall₂_eq_eq_eq, List.forall₂_map_left_iff, List.forall₂_map_right_iff]

theorem isGood_alike (k : Likeness) : Alike k Eq isGood.run := by
  intro row row' h
  have hall : ∀ row, isGood.run row = .ok ((row.map worth).all (· != 0)) :=
    fun row => by rw [List.all_map]; rfl
  rw [hall, hall, worths_eq h]
  exact Likeness.agree_ok rfl

theorem worthOf_alike (k : Likeness) : Alike k SameCell worthOf.run := by
  intro row row' h
  cases Cell.sameAll_iff.mp h with
  | nil => exact Likeness.agree_error _ _
  | cons hc _ => exact Likeness.agree_ok hc

theorem number_alike (k : Likeness) : number.Alike k := by
  refine ⟨fun row row' _ => Likeness.agree_ok trivial, fun x y hxy => ?_⟩
  have hpresent : number.present x = number.present y := by
    cases x <;> cases y <;> simp_all [Collected.Same, number]
  exact hpresent ▸ Cell.same_refl _

theorem parityOf_alike (k : Likeness) : Alike k SameCell parityOf.run := by
  intro row row' h
  rcases Cell.sameAll_iff.mp h with _ | ⟨hc, -⟩
  · exact Likeness.agree_error _ _
  · refine Likeness.agree_ok ?_
    rw [worth_eq hc]
    exact Cell.same_refl _

theorem mean_alike (k : Likeness) : mean.Alike k := by
  refine ⟨fun row row' h => ?_, fun x y hxy => ?_⟩
  · rcases Cell.sameAll_iff.mp h with _ | ⟨hc, -⟩
    · exact Likeness.agree_error _ _
    · refine Likeness.agree_ok ?_
      unfold worthDecimal
      rw [worth_eq hc]
      exact rfl
  · have hpresent : mean.present x = mean.present y := by
      cases x <;> cases y <;> simp_all [Collected.Same, mean]
    exact hpresent ▸ Cell.same_refl _

theorem mean_givesWhole : mean.GivesWhole := by
  rintro - (_ | ⟨c, row⟩) d hd
  · cases hd
  · obtain rfl := Contribution.decimal.inj (Except.ok.inj hd)
    rfl

theorem number_givesWhole : number.GivesWhole := by
  rintro (h | h) <;> cases h

theorem worthTerms_alike (k : Likeness) {weigh : Row Coin → Except Fault MatchWeight}
    (h : worthTerms.weigher = some weigh) : Alike k MatchWeight.Same weigh := by
  obtain rfl := Option.some.inj h
  intro row row' h
  rcases Cell.sameAll_iff.mp h with _ | ⟨-, _ | ⟨hn, _ | ⟨hx, _ | ⟨-, -⟩⟩⟩⟩
  · exact Likeness.agree_error _ _
  · exact Likeness.agree_error _ _
  · exact Likeness.agree_error _ _
  · refine Likeness.agree_ok ?_
    rw [worth_eq hn, worth_eq hx]
    exact rfl
  · exact Likeness.agree_error _ _

theorem collectors_alike (k : Likeness) : ∀ c ∈ [number, mean], c.Alike k :=
  List.forall_mem_cons.mpr ⟨number_alike k, List.forall_mem_singleton.mpr (mean_alike k)⟩

theorem worths_alike (k : Likeness) : worths.Alike k :=
  ⟨⟨List.forall_mem_singleton.mpr (parityOf_alike k), collectors_alike k⟩, isGood_alike k, trivial⟩

theorem pairs_alike (k : Likeness) : pairs.Alike k := by
  have hworth : ∀ g ∈ [worthOf.run], Alike k SameCell g :=
    List.forall_mem_singleton.mpr (worthOf_alike k)
  exact ⟨⟨hworth, hworth, fun c hc => by cases hc⟩, ⟨isGood_alike k, trivial⟩, trivial⟩

theorem worths_givesWhole : worths.GivesWhole :=
  ⟨List.forall_mem_cons.mpr ⟨number_givesWhole, List.forall_mem_singleton.mpr mean_givesWhole⟩,
    trivial⟩

theorem factory_givesWhole : factory.graph.GivesWhole := by
  obtain ⟨c, d, chosen, hf⟩ := factory_provided
  obtain ⟨-, -, b, ho⟩ := hf.origin
  refine ho.givesWhole naming_functional (by decide +kernel) ?_
  rintro w (_ | ⟨_, _ | ⟨_, ⟨⟩⟩⟩)
  · exact ⟨trivial, trivial⟩
  · exact worths_givesWhole

def compiled : Network Coin SimpleScore :=
  (Network.compile factory.graph factory.domain).toOption.get (by decide +kernel)

/-- The network of the factory, with the order of its nodes written out. -/
def network : Network Coin SimpleScore := { compiled with order := [0, 1, 3, 2, 6, 4, 7, 5, 9, 8] }

theorem network_compiled : Network.compile factory.graph factory.domain = .ok network := by
  have hranks : compiled.nodes.toList.map (·.rank) = [0, 1, 2, 1, 3, 4, 2, 3, 5, 4] := by
    decide +kernel
  exact Network.compile_ordered (Outcome.eq_ok_get _) hranks (by decide) (by decide)

def coin (id worth : Nat) : Fact Coin := ⟨"coin", ⟨id, true⟩, ⟨worth, true⟩⟩

/-- Two coins of worth 5 and a bad one. -/
def purse : List (Fact Coin) := [coin 1 5, coin 2 5, coin 3 0]

/-- After a first score, a coin is added and the bad one becomes good. -/
def calls : List (Session.Call Coin) := [.calculateScore, .insert (coin 4 7), .update (coin 3 5)]

def changed : Session Coin SimpleScore := .called factory network purse calls

theorem changed_ran : Session.Ran factory purse calls changed ∧
    ∃ n net, Network.settle.run.run changed.network = (.ok n, net) :=
  Session.called_ran network_compiled (by decide +kernel)

theorem changed_reached : Session.Reached factory changed ∧ changed.poisoned = false := by
  obtain ⟨c, d, chosen, hf⟩ := factory_provided
  obtain ⟨-, -, b, ho⟩ := hf.origin
  obtain ⟨hreached, husable, -⟩ := changed_ran.1.facts_eq ho.formed
  exact ⟨hreached, husable⟩

/-- The coins of the changed session, inserted at once and the other way round. -/
def anew : Session Coin SimpleScore := .called factory network changed.currentFacts.reverse []

/-- No decimal places come into the sums of the coins. -/
theorem sumsWhole {s : Session Coin SimpleScore} {net : Network Coin SimpleScore} {n : Nat}
    (h : Session.Reached factory s) (hs : s.poisoned = false)
    (hrun : Network.settle.run.run s.network = (.ok n, net)) : net.SumsWhole := by
  obtain ⟨c, d, chosen, hf⟩ := factory_provided
  obtain ⟨-, -, b, ho⟩ := hf.origin
  exact (h.settles ho.formed hs hrun).sumsWhole ho.formed factory_givesWhole

def worthFactory : SessionFactory Coin SimpleScore :=
  (SessionFactory.build .default domain worthProvider).toOption.get (by decide +kernel)

theorem worthFactory_provided : ∃ d chosen, worthFactory.ProvidedBy naming .default domain
    [⟨d, worths, SimpleScore.one, worthTerms⟩] chosen := by
  obtain ⟨written, chosen, ⟨d, rfl⟩, hf⟩ :=
    SessionFactory.ProvidedBy.of_build worthProvider_provides (Outcome.eq_ok_get _)
  exact ⟨d, chosen, hf⟩

theorem worthFactory_givesWhole : worthFactory.graph.GivesWhole := by
  obtain ⟨d, chosen, hf⟩ := worthFactory_provided
  obtain ⟨-, -, b, ho⟩ := hf.origin
  exact ho.givesWhole naming_functional (by decide +kernel)
    (List.forall_mem_singleton.mpr worths_givesWhole)

def worthCompiled : Network Coin SimpleScore :=
  (Network.compile worthFactory.graph worthFactory.domain).toOption.get (by decide +kernel)

def worthNetwork : Network Coin SimpleScore := { worthCompiled with order := [0, 1, 2, 3, 4] }

theorem worthNetwork_compiled :
    Network.compile worthFactory.graph worthFactory.domain = .ok worthNetwork := by
  have hranks : worthCompiled.nodes.toList.map (·.rank) = [0, 1, 2, 3, 4] := by
    decide +kernel
  exact Network.compile_ordered (Outcome.eq_ok_get _) hranks (by decide) (by decide)

def worthChanged : Session Coin SimpleScore := .called worthFactory worthNetwork purse calls

theorem worthChanged_ran : Session.Ran worthFactory purse calls worthChanged ∧
    ∃ n net, Network.settle.run.run worthChanged.network = (.ok n, net) ∧ net.SumsWhole := by
  have hran := Session.called_ran worthNetwork_compiled
    (by decide +kernel : Session.succeeds worthFactory worthNetwork purse calls)
  obtain ⟨d, chosen, hf⟩ := worthFactory_provided
  obtain ⟨-, -, b, ho⟩ := hf.origin
  obtain ⟨hreached, husable, -⟩ := hran.1.facts_eq ho.formed
  obtain ⟨n, net, hrun⟩ := hran.2
  exact ⟨hran.1, n, net, hrun,
    (hreached.settles ho.formed husable hrun).sumsWhole ho.formed worthFactory_givesWhole⟩

end Coin

end ConstraintScoring
