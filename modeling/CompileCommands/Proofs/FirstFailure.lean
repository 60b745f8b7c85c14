import CompileCommands.Proofs.Success

set_option autoImplicit false

/- Going through a list of which some member fails. The first one that does decides, and what comes
after it makes no difference. -/
namespace CompileCommands

variable {α β ε : Type} {f : α → Except ε β}

/-- Whether a member of a list fails with `failure` and none before it fails. -/
def FailsFirst (f : α → Except ε β) (xs : List α) (failure : ε) : Prop :=
  ∃ before x after, xs = before ++ x :: after ∧ (∀ y ∈ before, ∃ b, f y = .ok b) ∧
    f x = .error failure

theorem FailsFirst.exists_mem {xs : List α} {failure : ε} (fails : FailsFirst f xs failure) :
    ∃ x ∈ xs, f x = .error failure := by
  obtain ⟨before, x, after, rfl, _, here⟩ := fails
  exact ⟨x, List.mem_append_right before (List.mem_cons_self ..), here⟩

theorem FailsFirst.map {γ : Type} {xs : List α} {failure : ε} (fails : FailsFirst f xs failure)
    (g : β → γ) : FailsFirst (fun x => (f x).map g) xs failure := by
  obtain ⟨before, x, after, parts, earlier, here⟩ := fails
  refine ⟨before, x, after, parts, fun y member => ?_, ?_⟩
  · obtain ⟨b, found⟩ := earlier y member
    exact ⟨g b, congrArg (Except.map g) found⟩
  · exact congrArg (Except.map g) here

theorem not_failsFirst_nil (failure : ε) : ¬ FailsFirst f [] failure := by
  intro fails
  obtain ⟨x, member, _⟩ := fails.exists_mem
  contradiction

theorem failsFirst_cons_iff (x : α) (rest : List α) (failure : ε) :
    FailsFirst f (x :: rest) failure ↔
      f x = .error failure ∨ (∃ b, f x = .ok b) ∧ FailsFirst f rest failure := by
  constructor
  · rintro ⟨before, y, after, parts, earlier, here⟩
    cases before with
    | nil =>
        cases parts
        exact .inl here
    | cons first before =>
        cases parts
        refine .inr ⟨earlier x (List.mem_cons_self ..), before, y, after, rfl, ?_, here⟩
        exact fun other member => earlier other (.tail x member)
  · rintro (here | ⟨first, before, y, after, rfl, earlier, here⟩)
    · exact ⟨[], x, rest, rfl, by simp, here⟩
    · exact ⟨x :: before, y, after, rfl, List.forall_mem_cons.mpr ⟨first, earlier⟩, here⟩

theorem forall_ok_or_failsFirst (f : α → Except ε β) (xs : List α) :
    (∀ x ∈ xs, ∃ b, f x = .ok b) ∨ ∃ failure, FailsFirst f xs failure := by
  induction xs with
  | nil => exact .inl (by simp)
  | cons x rest ih =>
      cases first : f x with
      | error failure =>
          exact .inr ⟨failure, (failsFirst_cons_iff x rest failure).mpr (.inl first)⟩
      | ok b =>
          rcases ih with others | ⟨failure, later⟩
          · exact .inl (List.forall_mem_cons.mpr ⟨⟨b, first⟩, others⟩)
          · exact .inr ⟨failure, (failsFirst_cons_iff ..).mpr (.inr ⟨⟨b, first⟩, later⟩)⟩

theorem mapM_eq_error_iff (xs : List α) (failure : ε) :
    xs.mapM f = .error failure ↔ FailsFirst f xs failure := by
  induction xs with
  | nil => simp [pure, Except.pure, not_failsFirst_nil]
  | cons x rest ih =>
      rw [List.mapM_cons, failsFirst_cons_iff, ← ih]
      cases f x with
      | error other => simp [bind, Except.bind]
      | ok b => cases rest.mapM f <;> simp [bind, Except.bind, pure, Except.pure]

end CompileCommands
