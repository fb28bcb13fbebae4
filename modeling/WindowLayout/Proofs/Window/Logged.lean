import WindowLayout.Window.Recording

/-!
# A window with a log

Any window can be given a log of the requests that are made of it, the newest first. The window
does with a request as it likes, and answers as it likes; what it refuses is not in the log. The
log only grows, so what happened between two states is what was put in front.

## Main definitions

* `Request.element?`, `Request.puts` — the element that a request is about, and whether it gives
  the element a place;
* `Logged` — a window with a log;
* `Logged.Adds` — a state whose log has requests of one kind in front of those of another state.

## Main results

* `Logged.Adds.foldl` — requests that are made one after the other;
* `Logged.adds_tell`, `Logged.adds_ask` — what one request adds.
-/

namespace WindowLayout

namespace Request

/-- The element that a request moves, shows, hides or destroys, or moves to another parent. Other
requests are about no element, or about a new one. -/
def element? : Request → Option Element
  | move e _ | setShown e _ | destroy e | rehome e _ => some e
  | _ => none

/-- Whether a request moves an element, or shows or hides it. -/
def puts : Request → Bool
  | move .. | setShown .. => true
  | _ => false

end Request

/-- A window with a log of the requests that it was made, the newest first. It answers as the window
does. -/
structure Logged (σ : Type) where
  window : σ
  requests : List Request

namespace Logged

variable {σ β : Type}

/-- Makes a request. -/
def tell (r : Request) (f : σ → σ) (w : Logged σ) : Logged σ := ⟨f w.window, r :: w.requests⟩

/-- Asks for something that the window may refuse. -/
def ask (request : β → Request) (f : σ → Except WindowError β × σ) (w : Logged σ) :
    Except WindowError β × Logged σ :=
  match f w.window with
  | (.ok b, window) => (.ok b, ⟨window, request b :: w.requests⟩)
  | (.error err, window) => (.error err, { w with window })

instance [Window σ] : Window (Logged σ) where
  innerSize w := Window.innerSize w.window
  owns w := Window.owns w.window
  isClosing w := Window.isClosing w.window
  measure w := Window.measure w.window
  noteAsked q w := { w with window := Window.noteAsked q w.window }
  move e r := tell (.move e r) (Window.move e r)
  setShown e visible := tell (.setShown e visible) (Window.setShown e visible)
  makeLabel text := ask (.makeLabel · text) (Window.makeLabel text)
  destroy e := tell (.destroy e) (Window.destroy e)
  takePointer := tell .takePointer Window.takePointer
  returnPointer := tell .returnPointer Window.returnPointer
  openContainer r := ask (.openContainer · r) (Window.openContainer r)
  closeContainer c := tell (.closeContainer c) (Window.closeContainer c)
  rehome e c := tell (.rehome e c) (Window.rehome e c)
  setIndicator r := tell (.indicator r) (Window.setIndicator r)

/-! ### What is added to the log -/

/-- The second state has a number of requests of one kind in front of those of the first. What is
known of the log is proved from this, operation by operation. -/
def Adds (P : Request → Prop) (w w' : Logged σ) : Prop :=
  ∃ new, w'.requests = new ++ w.requests ∧ ∀ r ∈ new, P r

variable {P Q : Request → Prop} {w w' w'' : Logged σ}

/-- The requests that were added are those of the log before the ones that were there. -/
theorem adds_iff {new : List Request} (h : w'.requests = new ++ w.requests) :
    w.Adds P w' ↔ ∀ r ∈ new, P r := by
  refine ⟨fun ⟨new', hnew', hP⟩ => ?_, fun hP => ⟨new, h, hP⟩⟩
  rwa [List.append_cancel_right (h.symm.trans hnew')]

/-- A log that stays as it is has no request added. -/
theorem Adds.of_eq (h : w'.requests = w.requests) : w.Adds P w' :=
  ⟨[], h, fun _ hr => absurd hr List.not_mem_nil⟩

/-- Nothing is added when nothing happens. -/
theorem Adds.refl (P : Request → Prop) (w : Logged σ) : w.Adds P w := .of_eq rfl

/-- Requests of one kind that are added twice are of that kind. -/
theorem Adds.trans (h : w.Adds P w') (h' : w'.Adds P w'') : w.Adds P w'' := by
  obtain ⟨new, hnew, hP⟩ := h
  obtain ⟨new', hnew', hP'⟩ := h'
  refine ⟨new' ++ new, by rw [hnew', hnew, List.append_assoc], fun r hr => ?_⟩
  exact (List.mem_append.mp hr).elim (hP' r) (hP r)

/-- Requests of one kind are of every kind that includes it. -/
theorem Adds.mono (h : w.Adds P w') (hPQ : ∀ r, P r → Q r) : w.Adds Q w' := by
  obtain ⟨new, hnew, hP⟩ := h
  exact ⟨new, hnew, fun r hr => hPQ r (hP r hr)⟩

/-- Every request that was not in the log before is of the kind. By induction on the list that the
requests are made for. -/
theorem Adds.foldl {f : Logged σ → β → Logged σ} {bs : List β}
    (hf : ∀ w : Logged σ, ∀ b ∈ bs, w.Adds P (f w b)) :
    ∀ w : Logged σ, w.Adds P (bs.foldl f w) := by
  induction bs with
  | nil => exact Adds.refl P
  | cons b bs ih =>
      intro w
      exact (hf w b List.mem_cons_self).trans
        (ih (fun w c hc => hf w c (List.mem_cons_of_mem _ hc)) _)

/-- A request that is made is added to the log. What the window does with it makes no difference to
that. -/
theorem adds_tell {r : Request} (hr : P r) (f : σ → σ) (w : Logged σ) : w.Adds P (w.tell r f) :=
  ⟨[r], rfl, fun _ h => List.mem_singleton.mp h ▸ hr⟩

/-- A request that may be refused is added to the log if it is granted, with its answer. One that is
refused leaves the log as it was. -/
theorem adds_ask {request : β → Request} (hr : ∀ b, P (request b))
    (f : σ → Except WindowError β × σ) (w : Logged σ) : w.Adds P (w.ask request f).2 := by
  unfold ask
  split
  · next b window _ => exact ⟨[request b], rfl, fun _ h => List.mem_singleton.mp h ▸ hr b⟩
  · exact .of_eq rfl

end Logged

end WindowLayout
