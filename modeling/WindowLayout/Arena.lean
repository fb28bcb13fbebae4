/-!
# Arenas with checked handles

A store of slots addressed by handles that go stale. A handle names a slot and the generation
of its content; removing the content advances the slot's generation, so that a handle to what
was removed resolves to nothing, even after the slot is used again. Free slots are used again
in the reverse order of their removal.

## Main definitions

* `Handle` and `Handle.number` — handles, and the single number a handle is shown as;
* `Arena` — the store, with `insert`, `get?`, `modify`, `remove` and `toList`.

## Main results

* `Arena.get?_insert_self` — what was inserted is found under the handle returned.
-/

namespace WindowLayout

/-- The name of a content: a slot and the generation of the content. A slot counts its generation up
when its content is removed, so that the handle to it goes stale. -/
structure Handle where
  generation : UInt32
  index : Nat
deriving DecidableEq, Repr

namespace Handle

/-- The number a handle is shown as: the generation above the slot number in a word of 64
bits, plus one so that no handle is zero. -/
def number (h : Handle) : Nat :=
  min (h.generation.toNat * 0x100000000 + h.index + 1) 0xffffffffffffffff

/-- The handle shown as a given number. -/
def ofNumber (n : Nat) : Handle :=
  let low := n % 0x100000000
  ⟨UInt32.ofNat (n / 0x100000000), if low = 0 then 0xffffffff else low - 1⟩

end Handle

/-- A slot: its generation and its content, if it is in use. -/
structure Slot (β : Type) where
  generation : UInt32
  content : Option β
deriving Repr

/-- A store of slots, with the free slots in the order of their next use. No slot is ever given up,
so the store is as large as it has ever been. -/
structure Arena (β : Type) where
  slots : Array (Slot β)
  free : List Nat
deriving Repr

namespace Arena

variable {β : Type}

/-- The arena without slots. -/
def empty : Arena β := ⟨#[], []⟩

instance : Inhabited (Arena β) := ⟨empty⟩

/-- A new slot at the end. -/
def grow (a : Arena β) (content : β) : Handle × Arena β :=
  (⟨0, a.slots.size⟩, { a with slots := a.slots.push ⟨0, some content⟩ })

/-- Puts a content into the slot that was freed last, or into a new slot. The handle that is given
carries the generation that the slot has at that time. -/
def insert (a : Arena β) (content : β) : Handle × Arena β :=
  match a.free with
  | [] => a.grow content
  | i :: free =>
    match a.slots[i]? with
    | none => grow { a with free } content
    | some slot => (⟨slot.generation, i⟩,
        ⟨a.slots.setIfInBounds i { slot with content := some content }, free⟩)

/-- The slot that a handle names, if its generation is the handle's. -/
def slot? (a : Arena β) (h : Handle) : Option (Slot β) :=
  (a.slots[h.index]?).filter (·.generation = h.generation)

/-- The content that a handle names; nothing for a stale handle, whether its slot is free or has
another content by now. -/
def get? (a : Arena β) (h : Handle) : Option β := (a.slot? h).bind (·.content)

def contains (a : Arena β) (h : Handle) : Bool := (a.get? h).isSome

/-- Replaces the content that a handle names; a stale handle changes nothing. The handle names the
new content as it named the old one. -/
def modify (a : Arena β) (h : Handle) (f : β → β) : Arena β :=
  match a.get? h with
  | none => a
  | some content =>
    { a with slots := a.slots.setIfInBounds h.index ⟨h.generation, some (f content)⟩ }

/-- Frees the slot that a handle names and advances its generation. Gives the content that was
removed; a stale handle changes nothing. -/
def remove (a : Arena β) (h : Handle) : Option β × Arena β :=
  match a.get? h with
  | none => (none, a)
  | some content => (some content,
      ⟨a.slots.setIfInBounds h.index ⟨h.generation + 1, none⟩, h.index :: a.free⟩)

/-- The number of contents. -/
def size (a : Arena β) : Nat := a.slots.size - a.free.length

def isEmpty (a : Arena β) : Bool := a.size = 0

/-- The contents with their handles, in the order of the slots. This need not be the order in which
the contents came in. -/
def toList (a : Arena β) : List (Handle × β) :=
  a.slots.toList.zipIdx.filterMap fun (slot, i) =>
    slot.content.map fun content => (⟨slot.generation, i⟩, content)

/-! ### Small lemmas -/

/-- What was inserted is found under the handle returned. This needs nothing of the arena, not even
that its free list is right. -/
theorem get?_insert_self (a : Arena β) (content : β) :
    (a.insert content).2.get? (a.insert content).1 = some content := by
  unfold insert
  split
  · simp [grow, get?, slot?, Option.filter]
  · split
    · simp [grow, get?, slot?, Option.filter]
    · next i _ _ _ slot hslot =>
      have hi : i < a.slots.size := by
        rw [Array.getElem?_eq_some_iff] at hslot
        exact hslot.1
      simp [get?, slot?, Option.filter, hi]

end Arena

end WindowLayout
