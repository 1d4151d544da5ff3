import ConstraintScoring.Proofs.Session.Calls

/-!
# The sessions of a factory

A session is built by a factory and goes through any calls in any order. As long as it is not
poisoned it is at a reachable moment of the network of its factory; a poisoned session stays as it is.
-/

namespace ConstraintScoring

variable {V S α : Type}

namespace Session

/-- A call, with what it is given. -/
inductive Call (V : Type) where
  | insert (f : Fact V)
  | update (f : Fact V)
  | retract (f : Fact V)
  | calculateScore
  | constraintTotals
  | constraintMatches
  | explainScore
  | indictments

variable [Cell V] [Score S]

/-- Does what the call asks for; the answer is left out. -/
def Call.perform : Call V → SessionCall V S Unit
  | insert f => Session.insert f
  | update f => Session.update f
  | retract f => Session.retract f
  | calculateScore => do let _ ← Session.calculateScore
  | constraintTotals => do let _ ← Session.constraintTotals
  | constraintMatches => do let _ ← Session.constraintMatches
  | explainScore => do let _ ← Session.explainScore
  | indictments => do let _ ← Session.indictments

/-- The facts of a session after a call that was answered. -/
def Call.note (facts : Table (FactKey V) V) : Call V → Table (FactKey V) V
  | insert f => FactChange.insert.after facts f
  | update f => FactChange.update.after facts f
  | retract f => FactChange.retract.after facts f
  | _ => facts

/-- The session after a call, whether the call was answered or not. -/
def after (s : Session V S) (c : Call V) : Session V S := (c.perform.run.run s).2

/-- The sessions that a factory builds, after any calls. -/
inductive Reached (f : SessionFactory V S) : Session V S → Prop where
  | built {facts tracksMatches s} : f.buildSession facts tracksMatches = .ok s → Reached f s
  | call {s} (c : Call V) : Reached f s → Reached f (s.after c)

/-- The session of a factory that was built with some facts and has answered some calls. -/
inductive Ran (f : SessionFactory V S) (facts : List (Fact V)) :
    List (Call V) → Session V S → Prop where
  | built {tracksMatches s} : f.buildSession facts tracksMatches = .ok s → Ran f facts [] s
  | call {calls c s s'} : Ran f facts calls s → c.perform.run.run s = (.ok (), s') →
      Ran f facts (calls ++ [c]) s'

/-- What a call that was answered leads to. -/
structure Answered (net₀ : Network V S) (c : Call V) (s s' : Session V S) : Prop where
  alike : Alike s s'
  facts : s'.facts = c.note s.facts
  moment : ∃ m, s'.At net₀ m

/-- A session was poisoned, or is at a moment between calls. -/
def Kept (net₀ : Network V S) (s s' : Session V S) : Prop :=
  s'.poisoned = true ∨ Alike s s' ∧ ∃ m, s'.At net₀ m

variable {net₀ : Network V S} {s s' : Session V S} {m : Moment V S} {width : NodeId → Nat}
  {f : SessionFactory V S} {e : EngineError}

theorem Settled.kept (h : Settled net₀ s s') : Kept net₀ s s' := by
  obtain ⟨m, hm, -⟩ := h.moment
  exact Or.inr ⟨h.alike, m, hm⟩

theorem Broken.kept (h : Broken net₀ e s') : Kept net₀ s s' := Or.inl h.1

theorem Failed.kept (h : Failed net₀ s e s') (hs : s.At net₀ m) : Kept net₀ s s' := by
  rcases h with rfl | h
  · exact Or.inr ⟨.refl s', m, hs⟩
  · exact h.kept

section

variable [Std.TransOrd V] [LawfulScore S]

theorem perform_ensures (c : Call V) (h : s.At net₀ m) (hw : Network.Wired net₀ width)
    (hu : net₀.Unused) (hc : Network.compile net₀.graph s.domain = .ok net₀)
    (hs : s.poisoned = false) :
    c.perform.Ensures s (fun _ => Answered net₀ c s) (fun _ => Kept net₀ s) := by
  have hchange : ∀ {x : SessionCall V S Unit} {change : FactChange} {f : Fact V},
      x.Ensures s (fun _ s' => Changed net₀ change f s s') (Failed net₀ s) →
      (∀ s', Changed net₀ change f s s' → Answered net₀ c s s') →
      x.Ensures s (fun _ => Answered net₀ c s) (fun _ => Kept net₀ s) :=
    fun hx hQ => hx.mono (fun _ s' => hQ s') fun _ _ hf => hf.kept h
  have hanswer : ∀ {α : Type} {x : SessionCall V S α} {Q : α → Session V S → Prop},
      x.Ensures s Q (fun _ => Kept net₀ s) → (∀ a s', Q a s' → Settled net₀ s s') →
      c.note s.facts = s.facts →
      (do let _ ← x).Ensures s (fun _ => Answered net₀ c s) (fun _ => Kept net₀ s) := by
    refine fun hx hQ hnote => hx.bind fun a s' ha => .of_pure ?_
    obtain ⟨halike, hfacts, m', hm', -⟩ := hQ a s' ha
    exact ⟨halike, hfacts.trans hnote.symm, m', hm'⟩
  cases c with
  | insert f => exact hchange (addFact_ensures h hs) fun s' hs' => ⟨hs'.alike, hs'.facts, hs'.moment⟩
  | update f => exact hchange (update_ensures h hs) fun s' hs' => ⟨hs'.alike, hs'.facts, hs'.moment⟩
  | retract f => exact hchange (retract_ensures h hs) fun s' hs' => ⟨hs'.alike, hs'.facts, hs'.moment⟩
  | calculateScore =>
      refine hanswer ((calculateScore_ensures h hw hu hc hs).mono (fun _ _ => id) ?_)
        (fun _ _ ha => ha.1) rfl
      rintro e s' (hbroken | ⟨hsettled, -⟩)
      · exact hbroken.kept
      · exact hsettled.kept
  | constraintTotals =>
      exact hanswer ((constraintTotals_ensures h hw hu hs).mono (fun _ _ => id)
        fun _ _ hb => hb.kept) (fun _ _ ha => ha.1) rfl
  | constraintMatches =>
      exact hanswer ((constraintMatches_ensures h hw hu hs).mono (fun _ _ => id)
        fun _ _ hf => hf.kept h) (fun _ _ ha => ha.1) rfl
  | explainScore =>
      exact hanswer ((explainScore_ensures h hw hu hs).mono (fun _ _ => id)
        fun _ _ hf => hf.kept h) (fun _ _ ha => ha.1) rfl
  | indictments =>
      exact hanswer ((indictments_ensures h hw hu hs).mono (fun _ _ => id)
        fun _ _ hf => hf.kept h) (fun _ _ ha => ha.1) rfl

theorem after_kept (c : Call V) (h : s.At net₀ m) (hw : Network.Wired net₀ width)
    (hu : net₀.Unused) (hc : Network.compile net₀.graph s.domain = .ok net₀)
    (hs : s.poisoned = false) : Kept net₀ s (s.after c) := by
  have hensures := perform_ensures c h hw hu hc hs
  unfold SessionCall.Ensures at hensures
  unfold after
  rcases hrun : c.perform.run.run s with ⟨e | a, s'⟩ <;> simp only [hrun] at hensures ⊢
  · exact hensures
  · exact Or.inr ⟨hensures.alike, hensures.moment⟩

/-- A table of facts with some facts added, one after the other. -/
def addAll (facts : Table (FactKey V) V) (fs : List (Fact V)) : Table (FactKey V) V :=
  fs.foldl (fun T f => T.insert f.key f.cell) facts

omit [Std.TransOrd V] [LawfulScore S] in
theorem insertAll_ensures {fs : List (Fact V)} (h : s.At net₀ m) (hs : s.poisoned = false) :
    (insertAll fs).Ensures s
      (fun _ s' => Alike s s' ∧ (∃ m, s'.At net₀ m) ∧ s'.facts = addAll s.facts fs)
      fun _ _ => True := by
  induction fs generalizing s m with
  | nil => exact .of_pure ⟨.refl s, ⟨m, h⟩, rfl⟩
  | cons f fs ih =>
      refine ((addFact_ensures h hs).mono (fun _ _ => id) fun _ _ _ => trivial).bind ?_
      intro _ s' hchanged
      obtain ⟨m', hm'⟩ := hchanged.moment
      refine (ih hm' (hchanged.alike.poisoned.trans hs)).mono (fun _ s'' hs'' => ?_) fun _ _ => id
      refine ⟨hchanged.alike.trans hs''.1, hs''.2.1, hs''.2.2.trans ?_⟩
      rw [hchanged.facts]
      rfl

end

omit [Score S] [Cell V] in
theorem checkUsable_refuses (h : s.poisoned = true) (next : SessionCall V S α) :
    (checkUsable >>= fun _ => next).run.run s = (.error .poisoned, s) := by
  rw [Outcome.run_bind]
  have hrefused : (checkUsable : SessionCall V S Unit).run.run s = (.error .poisoned, s) := by
    change ((if s.poisoned then throw .poisoned else pure () : SessionCall V S Unit)).run.run s = _
    rw [h]
    rfl
  rw [hrefused]

omit [Score S] [Cell V] in
theorem checkUsable_passes (h : s.poisoned = false) (next : SessionCall V S α) :
    (checkUsable >>= fun _ => next).run.run s = next.run.run s := by
  rw [Outcome.run_bind]
  have hpassed : (checkUsable : SessionCall V S Unit).run.run s = (.ok (), s) := by
    change ((if s.poisoned then throw .poisoned else pure () : SessionCall V S Unit)).run.run s = _
    rw [h]
    rfl
  rw [hpassed]

omit [Score S] [Cell V] in
/-- A session that is not refused is not poisoned. -/
theorem usable_of_run {next : SessionCall V S α} {x : Except EngineError α}
    (h : (checkUsable >>= fun _ => next).run.run s = (x, s')) (hx : x ≠ .error .poisoned) :
    s.poisoned = false := by
  cases hs : s.poisoned with
  | false => rfl
  | true => exact absurd (congrArg Prod.fst (h.symm.trans (checkUsable_refuses hs next))) hx

/-- A poisoned session refuses every call and stays as it is. -/
theorem perform_refuses (c : Call V) (h : s.poisoned = true) :
    c.perform.run.run s = (.error .poisoned, s) := by
  have hmatches : (constraintMatches : SessionCall V S _).run.run s = (.error .poisoned, s) :=
    checkUsable_refuses h _
  have hanswer : ∀ {α : Type} {x : SessionCall V S α} (next : α → SessionCall V S Unit),
      x.run.run s = (.error .poisoned, s) →
      (x >>= next).run.run s = (.error .poisoned, s) := by
    intro α x next hx
    rw [Outcome.run_bind, hx]
  cases c with
  | insert _ | update _ | retract _ => exact checkUsable_refuses h _
  | calculateScore | constraintTotals | constraintMatches =>
      exact hanswer _ (checkUsable_refuses h _)
  | explainScore =>
      refine hanswer _ ?_
      unfold explainScore
      rw [Outcome.run_bind, hmatches]
  | indictments =>
      refine hanswer _ ?_
      unfold indictments
      rw [Outcome.run_bind, hmatches]

/-- What is known of a session of a factory that is not poisoned. -/
structure Live (f : SessionFactory V S) (net₀ : Network V S) (s : Session V S) : Prop where
  compiled : Network.compile f.graph f.domain = .ok net₀
  domain : s.domain = f.domain
  mode : s.mode = f.mode
  moment : ∃ m, s.At net₀ m

theorem built_live {facts : List (Fact V)} {tracksMatches : Bool}
    (h : f.buildSession facts tracksMatches = .ok s) :
    s.poisoned = false ∧ s.facts = addAll .empty facts ∧ ∃ net₀, Live f net₀ s := by
  obtain ⟨s₀, hnew, h⟩ := Outcome.bind_eq_ok.mp h
  obtain ⟨net₀, hcompiled, hnew⟩ := Outcome.bind_eq_ok.mp hnew
  obtain rfl := Except.ok.inj hnew
  generalize hs₀ : (⟨f.domain, f.mode, tracksMatches, net₀, .empty, false⟩ : Session V S) = s₀ at h
  have hstart : s₀.At net₀ (.start net₀) := by
    subst hs₀
    exact ⟨.start, rfl, rfl, rfl⟩
  have hensures : (insertAll facts).Ensures s₀ _ _ := insertAll_ensures hstart (hs₀ ▸ rfl)
  unfold SessionCall.Ensures at hensures
  rcases hrun : (insertAll facts).run.run s₀ with ⟨e | a, s'⟩
  · simp only [hrun] at h
    cases h
  · simp only [hrun] at h hensures
    obtain rfl := Except.ok.inj h
    subst hs₀
    exact ⟨hensures.1.poisoned, hensures.2.2, net₀, hcompiled, hensures.1.domain, hensures.1.mode,
      hensures.2.1⟩

/-- A session of the factory that holds nothing yet. -/
def blank (f : SessionFactory V S) (net₀ : Network V S) (tracksMatches : Bool) : Session V S :=
  ⟨f.domain, f.mode, tracksMatches, net₀, .empty, false⟩

/-- The facts that a session is built with are inserted into a blank one. -/
theorem buildSession_eq (hcompiled : Network.compile f.graph f.domain = .ok net₀)
    {facts : List (Fact V)} {tracksMatches : Bool}
    (h : ((insertAll facts).run.run (blank f net₀ tracksMatches)).1.toOption.isSome) :
    f.buildSession facts tracksMatches =
      .ok ((insertAll facts).run.run (blank f net₀ tracksMatches)).2 := by
  have hnew : new f.graph f.domain tracksMatches f.mode = .ok (blank f net₀ tracksMatches) := by
    unfold new
    rw [hcompiled]
    rfl
  refine Outcome.bind_eq_ok.mpr ⟨_, hnew, ?_⟩
  rcases hrun : (insertAll facts).run.run (blank f net₀ tracksMatches) with ⟨_ | _, s⟩
  · rw [hrun] at h
    cases h
  · rfl

/-- Whether all calls are answered, one after the other. -/
def answers (s : Session V S) : List (Call V) → Bool
  | [] => true
  | c :: cs => (c.perform.run.run s).1.toOption.isSome && (s.after c).answers cs

theorem Ran.calls {facts : List (Fact V)} {cs ds : List (Call V)} (h : Ran f facts cs s)
    (hds : s.answers ds) : Ran f facts (cs ++ ds) (ds.foldl after s) := by
  induction ds generalizing cs s with
  | nil => exact (List.append_nil cs).symm ▸ h
  | cons d ds ih =>
      obtain ⟨hd, hds⟩ := Bool.and_eq_true_iff.mp hds
      obtain ⟨_, s', hrun⟩ := Outcome.run_eq_ok hd
      have hafter : s.after d = s' := congrArg Prod.snd hrun
      rw [List.append_cons]
      exact ih (hafter ▸ h.call hrun) hds

/-- A session that was built with some facts and then called. -/
def called (f : SessionFactory V S) (net₀ : Network V S) (facts : List (Fact V))
    (calls : List (Call V)) : Session V S :=
  calls.foldl after ((insertAll facts).run.run (blank f net₀ true)).2

/-- Whether the session is built, answers all its calls and can be settled afterwards. -/
def succeeds (f : SessionFactory V S) (net₀ : Network V S) (facts : List (Fact V))
    (calls : List (Call V)) : Bool :=
  ((insertAll facts).run.run (blank f net₀ true)).1.toOption.isSome &&
    ((insertAll facts).run.run (blank f net₀ true)).2.answers calls &&
    (Network.settle.run.run (called f net₀ facts calls).network).1.toOption.isSome

theorem called_ran (hcompiled : Network.compile f.graph f.domain = .ok net₀)
    {facts : List (Fact V)} {calls : List (Call V)} (h : succeeds f net₀ facts calls) :
    Ran f facts calls (called f net₀ facts calls) ∧
      ∃ k net, Network.settle.run.run (called f net₀ facts calls).network = (.ok k, net) := by
  obtain ⟨h, hsettles⟩ := Bool.and_eq_true_iff.mp h
  obtain ⟨hbuilt, hanswers⟩ := Bool.and_eq_true_iff.mp h
  exact ⟨(Ran.built (buildSession_eq hcompiled hbuilt)).calls hanswers, Outcome.run_eq_ok hsettles⟩

variable [Std.TransOrd V] [LawfulScore S]

theorem Reached.live (h : Reached f s) (hf : Formed f.graph.declarations)
    (hs : s.poisoned = false) : ∃ net₀, Live f net₀ s := by
  induction h with
  | built hbuilt => exact (built_live hbuilt).2.2
  | call c _ ih =>
      rename_i s _
      cases hpoisoned : s.poisoned with
      | true =>
          rw [after, perform_refuses c hpoisoned] at hs
          rw [hpoisoned] at hs
          cases hs
      | false =>
          obtain ⟨net₀, hcompiled, hdomain, hmode, m, hm⟩ := ih hpoisoned
          have hspec := Network.compile_spec hcompiled
          have hc : Network.compile net₀.graph s.domain = .ok net₀ := by
            rw [hspec.graph, hdomain, hcompiled]
          rcases after_kept c hm (hspec.wired hf) hspec.unused hc hpoisoned with hbad | ⟨halike, hm'⟩
          · rw [hbad] at hs
            cases hs
          · exact ⟨net₀, hcompiled, halike.domain.trans hdomain, halike.mode.trans hmode, hm'⟩

/-- The facts of a session depend only on those that it was built with and on its calls. -/
theorem Ran.facts_eq {facts : List (Fact V)} {calls : List (Call V)} (h : Ran f facts calls s)
    (hf : Formed f.graph.declarations) : Reached f s ∧ s.poisoned = false ∧
      s.facts = calls.foldl Call.note (addAll .empty facts) := by
  induction h with
  | built hbuilt =>
      obtain ⟨husable, hfacts, -⟩ := built_live hbuilt
      exact ⟨.built hbuilt, husable, hfacts⟩
  | call _ hrun ih =>
      rename_i calls c s s' _
      obtain ⟨hreached, husable, hfacts⟩ := ih
      obtain ⟨net₀, hcompiled, hdomain, -, m, hm⟩ := hreached.live hf husable
      have hspec := Network.compile_spec hcompiled
      have hc : Network.compile net₀.graph s.domain = .ok net₀ := by
        rw [hspec.graph, hdomain, hcompiled]
      have hanswered := perform_ensures c hm (hspec.wired hf) hspec.unused hc husable
      unfold SessionCall.Ensures at hanswered
      rw [hrun] at hanswered
      have hafter : s.after c = s' := congrArg Prod.snd hrun
      refine ⟨hafter ▸ hreached.call c, hanswered.alike.poisoned.trans husable, ?_⟩
      rw [hanswered.facts, hfacts, List.foldl_append]
      rfl

end Session

end ConstraintScoring
