import Mathlib.Data.Finmap
import WindowLayout.Proofs.Arena.Listing

/-!
# An arena is a finite map with fresh keys

Seen from outside, an arena is asked by words of 64 bits: an insertion answers with one, and every
other request carries one that came from somewhere. This module says what such a conversation can
look like without speaking of slots. `FreshMap` is a finite map together with the keys that it
has given out; `FreshMap.Step` is what one request may do to it, and the only freedom left is
which key an insertion gives out, as long as it was never given out before.

Two things could spoil this: a generation that wraps around, and a slot number that spills into
the generation when the two are packed. Both need as many requests as there are numbers of
32 bits, so `Tracks` carries the number of requests so far as a bound on the generations and on
the slots. That a key is not given out again is read off the generations: a key given out is
either in use or older than its slot.

## Main definitions

* `Handle.word`, `Handle.ofWord` — the word of a handle, and the handle that a word is read as;
* `Arena.Call`, `Arena.Answer`, `Arena.runAll` — requests and what an arena answers to them;
* `FreshMap`, `FreshMap.Step`, `FreshMap.Runs` — the finite map and its runs.

## Main results

* `Handle.ofWord_eq_iff` — packing and unpacking, below the last slot number;
* `FreshMap.Runs.lookup_eq` — what is held under a key once it was given out;
* `Arena.runAll_refines` — the answers of an arena are those of a finite map with fresh keys.
-/

namespace WindowLayout

/-! ### Handles as words -/

namespace Handle

variable {h : Handle} {w : UInt64}

/-- The word of 64 bits by which a handle is passed around. Its upper half is the generation, so
that words of one slot differ. -/
def word (h : Handle) : UInt64 := .ofNat h.number

/-- The handle that a word is read as. Words that no handle is passed as are read as well, and name
nothing. -/
def ofWord (w : UInt64) : Handle := .ofNumber w.toNat

/-- The number of a handle is within 64 bits, so it is passed around as it is. -/
theorem toNat_word (h : Handle) : h.word.toNat = h.number := by
  have hle : h.number ≤ 0xffffffffffffffff := Nat.min_le_right _ _
  rw [word, UInt64.toNat_ofNat']
  omega

/-- A handle is read back from its word, if its index is not the largest one. The word of that one
would be the same as one of the next generation. -/
theorem ofWord_word (hi : h.index < 0xffffffff) : ofWord h.word = h := by
  obtain ⟨generation, index⟩ := h
  have hg := generation.toNat_lt
  dsimp only at hi
  have hnumber : number ⟨generation, index⟩ = generation.toNat * 0x100000000 + (index + 1) := by
    dsimp only [number]
    omega
  have hlow : (generation.toNat * 0x100000000 + (index + 1)) % 0x100000000 = index + 1 := by omega
  have hhigh : (generation.toNat * 0x100000000 + (index + 1)) / 0x100000000 = generation.toNat := by
    omega
  simp [ofWord, toNat_word, hnumber, ofNumber, hlow, hhigh]

/-- A word that is read as a handle is the word of that handle. -/
theorem word_ofWord (hi : (ofWord w).index < 0xffffffff) : (ofWord w).word = w := by
  have hw := w.toNat_lt
  have hlow : w.toNat % 0x100000000 ≠ 0 := by
    intro hlow
    simp [ofWord, ofNumber, hlow] at hi
  have hindex : (ofWord w).index = w.toNat % 0x100000000 - 1 := by
    simp [ofWord, ofNumber, hlow]
  have hgeneration : (ofWord w).generation.toNat = w.toNat / 0x100000000 := by
    rw [ofWord, ofNumber, UInt32.toNat_ofNat']
    omega
  refine UInt64.toNat_inj.mp ?_
  rw [toNat_word, number, hindex, hgeneration]
  omega

/-- Below the last slot number a handle and its word determine each other. At that number the word
would run into the next generation. -/
theorem ofWord_eq_iff (hi : h.index < 0xffffffff) : ofWord w = h ↔ w = h.word := by
  constructor
  · rintro rfl
    exact (word_ofWord hi).symm
  · rintro rfl
    exact ofWord_word hi

end Handle

/-! ### Requests to an arena -/

namespace Arena

variable {β : Type} {a : Arena β} {h : Handle}

/-- A request to an arena. Keys are words, any words, whether an arena has given them or not. -/
inductive Call (β : Type) where
  | insert (content : β)
  | remove (key : UInt64)
  | read (key : UInt64)
  | change (key : UInt64) (f : β → β)
  | list
  | count

/-- What an arena answers to a request. Contents are listed with their keys. -/
inductive Answer (β : Type) where
  | key (key : UInt64)
  | content (content : Option β)
  | contents (contents : List (UInt64 × β))
  | count (count : Nat)
deriving DecidableEq, Repr

/-- The contents with the words of their handles, in the order of the slots. -/
def listing (a : Arena β) : List (UInt64 × β) := a.toList.map fun (h, content) => (h.word, content)

/-- The answer to a request, and the arena afterwards. A change answers with the content that it
finds. -/
def Call.run (a : Arena β) : Call β → Answer β × Arena β
  | .insert content => (.key (a.insert content).1.word, (a.insert content).2)
  | .remove key => (.content (a.remove (.ofWord key)).1, (a.remove (.ofWord key)).2)
  | .read key => (.content (a.get? (.ofWord key)), a)
  | .change key f => (.content (a.get? (.ofWord key)), a.modify (.ofWord key) f)
  | .list => (.contents a.listing, a)
  | .count => (.count a.size, a)

/-- The answers to requests made one after the other, and the arena afterwards. The requests are
fixed beforehand; as they are any list, this covers those that depend on answers. -/
def runAll : List (Call β) → Arena β → List (Answer β) × Arena β
  | [], a => ([], a)
  | call :: calls, a =>
    ((call.run a).1 :: (runAll calls (call.run a).2).1, (runAll calls (call.run a).2).2)

/-- What a request does to the content that is held under a key. -/
def Call.follow (key : UInt64) (content : Option β) : Call β → Option β
  | .remove k => if k = key then none else content
  | .change k f => if k = key then content.map f else content
  | _ => content

/-- The key that an answer gives out. -/
def Answer.key? : Answer β → Option UInt64
  | .key k => some k
  | _ => none

/-- A run of calls is a run of the first ones and then a run of the others. -/
theorem runAll_append (calls more : List (Call β)) (a : Arena β) :
    runAll (calls ++ more) a =
      ((runAll calls a).1 ++ (runAll more (runAll calls a).2).1,
        (runAll more (runAll calls a).2).2) := by
  induction calls generalizing a with
  | nil => rfl
  | cons call calls ih => simp only [List.cons_append, runAll, ih]

end Arena

/-! ### The finite map -/

/-- A finite map that gives out its keys: what is held, and the keys given out so far. It has no
slots and no generations, and a key that was given out is never given again. -/
structure FreshMap (β : Type) where
  held : Finmap fun _ : UInt64 => β
  given : Finset UInt64

namespace FreshMap

open Arena (Call Answer)

variable {β : Type}

/-- The map that holds nothing and has given out no key. -/
def empty : FreshMap β := ⟨∅, ∅⟩

/-- The listing of a map: every key held, once and with its content, in the order of the slots
that the keys name. -/
structure Lists (m : FreshMap β) (contents : List (UInt64 × β)) : Prop where
  ordered : contents.Pairwise fun x y => (Handle.ofWord x.1).index < (Handle.ofWord y.1).index
  mem_iff : ∀ key content, (key, content) ∈ contents ↔ m.held.lookup key = some content

/-- What one request does to the map. Nothing is said of the key that an insertion gives out but
that it is a new one. -/
inductive Step : FreshMap β → Call β → Answer β → FreshMap β → Prop
  | insert (m : FreshMap β) (content : β) {key : UInt64} (fresh : key ∉ m.given) :
      Step m (.insert content) (.key key) ⟨m.held.insert key content, insert key m.given⟩
  | remove (m : FreshMap β) (key : UInt64) :
      Step m (.remove key) (.content (m.held.lookup key)) ⟨m.held.erase key, m.given⟩
  | read (m : FreshMap β) (key : UInt64) : Step m (.read key) (.content (m.held.lookup key)) m
  | change (m : FreshMap β) (key : UInt64) (f : β → β) {content : β}
      (found : m.held.lookup key = some content) :
      Step m (.change key f) (.content (some content))
        ⟨m.held.insert key (f content), m.given⟩
  | changeNothing (m : FreshMap β) (key : UInt64) (f : β → β) (missing : m.held.lookup key = none) :
      Step m (.change key f) (.content none) m
  | list (m : FreshMap β) {contents : List (UInt64 × β)} (lists : m.Lists contents) :
      Step m .list (.contents contents) m
  | count (m : FreshMap β) : Step m .count (.count m.held.keys.card) m

/-- The map answers requests made one after the other. It is a relation, as the map may give out any
key that is new. -/
inductive Runs : FreshMap β → List (Call β) → List (Answer β) → FreshMap β → Prop
  | nil (m : FreshMap β) : Runs m [] [] m
  | cons {l m n : FreshMap β} {call : Call β} {answer : Answer β} {calls : List (Call β)}
      {answers : List (Answer β)} (first : Step l call answer m) (rest : Runs m calls answers n) :
      Runs l (call :: calls) (answer :: answers) n

variable {m n : FreshMap β} {call : Call β} {answer : Answer β} {calls : List (Call β)}
  {answers : List (Answer β)} {key : UInt64}

/-- A listing is as long as the map has keys. -/
theorem Lists.length_eq {contents : List (UInt64 × β)} (hlists : m.Lists contents) :
    contents.length = m.held.keys.card := by
  have hnodup : (contents.map Prod.fst).Nodup :=
    List.pairwise_map.mpr (hlists.ordered.imp fun hlt heq =>
      absurd (congrArg (fun w => (Handle.ofWord w).index) heq) (Nat.ne_of_lt hlt))
  have hkeys : m.held.keys = (contents.map Prod.fst).toFinset := by
    ext key
    rw [Finmap.mem_keys, Finmap.mem_iff, List.mem_toFinset, List.mem_map]
    constructor
    · rintro ⟨content, hc⟩
      exact ⟨(key, content), (hlists.mem_iff key content).mpr hc, rfl⟩
    · rintro ⟨⟨key, content⟩, hc, rfl⟩
      exact ⟨content, (hlists.mem_iff key content).mp hc⟩
  rw [hkeys, List.toFinset_card_of_nodup hnodup, List.length_map]

/-- No key is forgotten: whatever was given once stays given. -/
theorem Step.given_subset (hs : Step m call answer n) : m.given ⊆ n.given := by
  cases hs with
  | insert => exact Finset.subset_insert _ _
  | _ => exact subset_rfl

/-- A request acts on the content under a key that was given out before as it says, also where it
gives out another key. -/
theorem Step.lookup_eq (hs : Step m call answer n) (hkey : key ∈ m.given) :
    n.held.lookup key = call.follow key (m.held.lookup key) := by
  cases hs with
  | insert content fresh =>
      rename_i k
      have hne : key ≠ k := by
        rintro rfl
        exact fresh hkey
      exact Finmap.lookup_insert_of_ne _ hne
  | remove k =>
      rw [Call.follow]
      split
      · next heq =>
        subst heq
        exact Finmap.lookup_erase _ _
      · next hne => exact Finmap.lookup_erase_ne (Ne.symm hne)
  | change k f found =>
      rw [Call.follow]
      split
      · next heq =>
        subst heq
        rw [found]
        exact Finmap.lookup_insert _
      · next hne => exact Finmap.lookup_insert_of_ne _ (Ne.symm hne)
  | changeNothing k f missing =>
      rw [Call.follow]
      split
      · next heq =>
        subst heq
        rw [missing]
        rfl
      · rfl
  | read | list | count => rfl

/-- Two runs, one after the other, are one run. -/
theorem Runs.append {l : FreshMap β} {more : List (Call β)} {further : List (Answer β)}
    (hr : Runs l calls answers m) (hmore : Runs m more further n) :
    Runs l (calls ++ more) (answers ++ further) n := by
  induction hr with
  | nil => exact hmore
  | cons first _ ih => exact .cons first (ih hmore)

/-- Once a key was given out, what is held under it is what the requests have made of it. No
insertion can come in between, as the key is never given again. -/
theorem Runs.lookup_eq (hr : Runs m calls answers n) (hkey : key ∈ m.given) :
    n.held.lookup key = calls.foldl (Call.follow key) (m.held.lookup key) := by
  induction hr with
  | nil => rfl
  | cons first _ ih => rw [List.foldl_cons, ih (first.given_subset hkey), first.lookup_eq hkey]

/-- The keys given out are new ones, and no two of them are the same. -/
theorem Runs.nodup_keys (hr : Runs m calls answers n) :
    (answers.filterMap Answer.key?).Nodup ∧
      ∀ key ∈ answers.filterMap Answer.key?, key ∉ m.given := by
  induction hr with
  | nil => simp
  | cons first _ ih =>
      obtain ⟨hnodup, hnew⟩ := ih
      cases first with
      | insert content fresh =>
          rename_i k
          refine ⟨List.nodup_cons.mpr ⟨fun hmem => ?_, hnodup⟩, ?_⟩
          · exact hnew _ hmem (Finset.mem_insert_self _ _)
          · intro key hmem
            rcases List.mem_cons.mp hmem with rfl | hmem
            · exact fresh
            · exact fun hgiven => hnew key hmem (Finset.mem_insert_of_mem hgiven)
      | _ => exact ⟨hnodup, hnew⟩

end FreshMap

/-! ### Generations -/

namespace Arena

variable {β : Type} {a : Arena β} {h : Handle}

/-- The generation of a slot. -/
def generation? (a : Arena β) (i : Nat) : Option UInt32 := (a.slots[i]?).map Slot.generation

/-- The generation of a slot that is taken is that of the handle that it was given out with. -/
theorem generation?_of_get? {content : β} (hc : a.get? h = some content) :
    a.generation? h.index = some h.generation := by
  rw [generation?, get?_eq_some_iff.mp hc, Option.map_some]

/-- A change of a content leaves all generations alone. -/
theorem generation?_modify (f : β → β) (i : Nat) :
    (a.modify h f).generation? i = a.generation? i := by
  rw [generation?, generation?, getElem?_slots_modify, Option.map_map]
  congr 1
  funext slot
  rw [Function.comp_apply]
  split <;> rfl

/-- A removal advances the generation of one slot. -/
theorem generation?_remove {content : β} (hc : a.get? h = some content) (i : Nat) :
    (a.remove h).2.generation? i =
      if i = h.index then some (h.generation + 1) else a.generation? i := by
  have hi := index_lt_of_get? hc
  rw [remove, hc, generation?, generation?]
  by_cases hij : i = h.index
  · subst hij
    simp [hi]
  · simp [hij, Array.getElem?_setIfInBounds_ne (Ne.symm hij)]

/-- In a sound arena an insertion writes one slot, which was empty and in the generation of the
handle, or was not there and starts at the first generation. -/
theorem Sound.generation?_insert (ha : a.Sound) (content : β) (i : Nat) :
    (a.insert content).2.generation? i = a.generation? i ∨
      a.generation? i = none ∧ i = a.slots.size ∧ (a.insert content).2.generation? i = some 0 := by
  unfold Arena.insert
  split
  · rw [generation?, generation?, grow, Array.getElem?_push]
    split
    · next hi =>
      subst hi
      simp
    · exact .inl rfl
  · next j free hfree =>
    obtain ⟨s, hs, -⟩ := (ha.mem_free_iff j).mp (by simp [hfree])
    have hj : j < a.slots.size := (Array.getElem?_eq_some_iff.mp hs).1
    simp only [hs, generation?]
    by_cases hij : i = j
    · subst hij
      rw [hs, Array.getElem?_setIfInBounds_self_of_lt hj]
      exact .inl rfl
    · simp [Array.getElem?_setIfInBounds_ne (Ne.symm hij)]

/-- A handle that is given out is for a slot that exists, or for the first one behind them all. Its
generation is that of the slot. -/
theorem Sound.insert_fst (ha : a.Sound) (content : β) :
    (a.insert content).1.index ≤ a.slots.size ∧
      ∀ g, a.generation? (a.insert content).1.index = some g →
        g = (a.insert content).1.generation := by
  unfold Arena.insert
  split
  · simp [grow, generation?]
  · next j free hfree =>
    obtain ⟨s, hs, -⟩ := (ha.mem_free_iff j).mp (by simp [hfree])
    have hj : j < a.slots.size := (Array.getElem?_eq_some_iff.mp hs).1
    simp only [hs, generation?, Option.map_some, Option.some.injEq]
    exact ⟨Nat.le_of_lt hj, fun g hg => hg.symm⟩

/-- A new content takes one more slot at most. -/
theorem size_slots_insert (content : β) :
    (a.insert content).2.slots.size ≤ a.slots.size + 1 := by
  unfold Arena.insert
  split
  · simp [grow]
  · split <;> simp [grow]

/-- A change of a content takes no slot. -/
theorem size_slots_modify (f : β → β) : (a.modify h f).slots.size = a.slots.size := by
  unfold modify
  split <;> simp

/-- A slot that becomes free stays a slot. -/
theorem size_slots_remove : (a.remove h).2.slots.size = a.slots.size := by
  unfold remove
  split <;> simp

/-! ### The arena follows the finite map -/

/-- After `n` requests an arena holds what a finite map holds. A key that was given out is in
use, or its slot has moved on to a later generation. -/
structure Tracks (n : Nat) (a : Arena β) (m : FreshMap β) : Prop where
  sound : a.Sound
  size_le : a.slots.size ≤ n
  generation_le : ∀ i g, a.generation? i = some g → g.toNat ≤ n
  lookup_eq : ∀ key, m.held.lookup key = a.get? (.ofWord key)
  spent : ∀ key ∈ m.given, ∃ g, a.generation? (Handle.ofWord key).index = some g ∧
    (a.get? (.ofWord key) = none → (Handle.ofWord key).generation < g)

variable {n : Nat} {m : FreshMap β}

/-- An arena without slots tracks the map without keys, after no calls. -/
theorem Tracks.empty : Tracks 0 (.empty : Arena β) .empty where
  sound := .empty
  size_le := Nat.le_refl 0
  generation_le := by simp [generation?, Arena.empty]
  lookup_eq := by simp [FreshMap.empty]
  spent := by simp [FreshMap.empty]

/-- What holds after some calls also holds if more calls are counted. -/
theorem Tracks.mono {k : Nat} (ht : Tracks n a m) (hle : n ≤ k) : Tracks k a m :=
  { ht with
    size_le := ht.size_le.trans hle
    generation_le := fun i g hg => (ht.generation_le i g hg).trans hle }

/-- Below the bound the listing of the arena is the listing of the map. -/
theorem Tracks.lists (ht : Tracks n a m) (hn : n < 0xffffffff) : m.Lists a.listing := by
  have hword : ∀ h content, a.get? h = some content → Handle.ofWord h.word = h :=
    fun h content hc => Handle.ofWord_word
      (((index_lt_of_get? hc).trans_le ht.size_le).trans hn)
  constructor
  · refine List.pairwise_map.mpr (pairwise_toList.imp_of_mem ?_)
    rintro ⟨h, c⟩ ⟨k, d⟩ hc hd hlt
    dsimp only
    rwa [hword h c (mem_toList.mp hc), hword k d (mem_toList.mp hd)]
  · intro key content
    rw [ht.lookup_eq, listing, List.mem_map]
    constructor
    · rintro ⟨⟨h, c⟩, hc, heq⟩
      obtain ⟨rfl, rfl⟩ := Prod.mk.inj heq
      rw [hword h c (mem_toList.mp hc)]
      exact mem_toList.mp hc
    · intro hc
      refine ⟨(.ofWord key, content), mem_toList.mpr hc, ?_⟩
      exact congrArg (·, content) (Handle.word_ofWord
        (((index_lt_of_get? hc).trans_le ht.size_le).trans hn))

/-- An insertion gives out a key that was never given out. -/
theorem Tracks.fresh (ht : Tracks n a m) (hn : n < 0xffffffff) (content : β) :
    (a.insert content).1.word ∉ m.given := by
  obtain ⟨hindex, hgeneration⟩ := ht.sound.insert_fst content
  intro hgiven
  obtain ⟨g, hg, hold⟩ := ht.spent _ hgiven
  rw [Handle.ofWord_word (by have := ht.size_le; omega)] at hg hold
  have hlt := hold (get?_insert_fst ht.sound content)
  rw [hgeneration g hg] at hlt
  exact absurd hlt (UInt32.lt_irrefl _)

/-- A new content is a new key of the map: the handle has not been given before, because the
generation of its slot has grown since. -/
theorem Tracks.insert (ht : Tracks n a m) (hn : n < 0xffffffff) (content : β) :
    Tracks (n + 1) (a.insert content).2
      ⟨m.held.insert (a.insert content).1.word content,
        Insert.insert (a.insert content).1.word m.given⟩ := by
  have hindex : (a.insert content).1.index < 0xffffffff := by
    have hle := (ht.sound.insert_fst content).1
    have hsize := ht.size_le
    omega
  refine ⟨ht.sound.insert content, (size_slots_insert content).trans (by
    have hsize := ht.size_le
    omega), fun i g hg => ?_, fun key => ?_, fun key hkey => ?_⟩
  · rcases ht.sound.generation?_insert content i with heq | ⟨-, -, heq⟩
    · rw [heq] at hg
      exact (ht.generation_le i g hg).trans (Nat.le_succ n)
    · rw [heq, Option.some.injEq] at hg
      simp [← hg]
  · rw [get?_insert]
    by_cases hkey : key = (a.insert content).1.word
    · rw [if_pos ((Handle.ofWord_eq_iff hindex).mpr hkey), hkey]
      exact Finmap.lookup_insert _
    · rw [if_neg (mt (Handle.ofWord_eq_iff hindex).mp hkey), Finmap.lookup_insert_of_ne _ hkey]
      exact ht.lookup_eq key
  · rcases Finset.mem_insert.mp hkey with rfl | hkey
    · rw [Handle.ofWord_word hindex]
      exact ⟨_, generation?_of_get? (get?_insert_self a content),
        fun hnone => by simp [get?_insert_self] at hnone⟩
    · obtain ⟨g, hg, hold⟩ := ht.spent key hkey
      rcases ht.sound.generation?_insert content (Handle.ofWord key).index with heq | ⟨heq, -⟩
      · refine ⟨g, heq.trans hg, fun hnone => hold ?_⟩
        rw [get?_insert] at hnone
        split at hnone
        · exact absurd hnone (by simp)
        · exact hnone
      · rw [heq] at hg
        exact absurd hg (by simp)

/-- To remove a handle is to erase its key, whether there is something under it or not. -/
theorem Tracks.remove (ht : Tracks n a m) (hn : n < 0xffffffff) (key : UInt64) :
    Tracks (n + 1) (a.remove (.ofWord key)).2 ⟨m.held.erase key, m.given⟩ := by
  rcases hc : a.get? (.ofWord key) with _ | content
  · -- nothing is held under the key, in the arena or in the map
    have herase : m.held.erase key = m.held := Finmap.ext_lookup fun k => by
      by_cases hk : k = key
      · subst hk
        rw [Finmap.lookup_erase, ht.lookup_eq, hc]
      · rw [Finmap.lookup_erase_ne hk]
    rw [remove_of_stale hc, herase]
    exact ht.mono (Nat.le_succ n)
  · have hindex : (Handle.ofWord key).index < 0xffffffff :=
      ((index_lt_of_get? hc).trans_le ht.size_le).trans hn
    have hgeneration := ht.generation_le _ _ (generation?_of_get? hc)
    have hnext : ((Handle.ofWord key).generation + 1).toNat =
        (Handle.ofWord key).generation.toNat + 1 := by
      rw [UInt32.toNat_add, UInt32.toNat_one]
      omega
    refine ⟨ht.sound.remove _, size_slots_remove.trans_le (ht.size_le.trans (Nat.le_succ n)),
      fun i g hg => ?_, fun k => ?_, fun k hk => ?_⟩
    · rw [generation?_remove hc] at hg
      split at hg
      · rw [← Option.some.inj hg, hnext]
        omega
      · exact (ht.generation_le i g hg).trans (Nat.le_succ n)
    · rw [get?_remove]
      by_cases heq : k = key
      · rw [if_pos (congrArg Handle.ofWord heq), heq]
        exact Finmap.lookup_erase _ _
      · have hne : Handle.ofWord k ≠ Handle.ofWord key := fun hsame => heq
          (((Handle.ofWord_eq_iff hindex).mp hsame).trans (Handle.word_ofWord hindex))
        rw [if_neg hne, Finmap.lookup_erase_ne heq]
        exact ht.lookup_eq k
    · obtain ⟨g, hg, hold⟩ := ht.spent k hk
      rw [generation?_remove hc, get?_remove]
      split
      · next hsame =>
        -- the slot has moved on, past the key that was removed and past those before it
        refine ⟨_, rfl, fun hnone => ?_⟩
        rw [hsame, generation?_of_get? hc, Option.some.injEq] at hg
        rw [UInt32.lt_iff_toNat_lt, hnext]
        rcases hkc : a.get? (.ofWord k) with _ | d
        · have hlt := UInt32.lt_iff_toNat_lt.mp (hold hkc)
          rw [← hg] at hlt
          omega
        · rw [eq_of_index_eq hkc hc hsame]
          omega
      · next hother =>
        have hne : Handle.ofWord k ≠ Handle.ofWord key := fun hsame =>
          hother (congrArg Handle.index hsame)
        rw [if_neg hne]
        exact ⟨g, hg, hold⟩

/-- A change of the content of a handle is a change under its key. -/
theorem Tracks.change (ht : Tracks n a m) (hn : n < 0xffffffff) {key : UInt64} {content : β}
    (hc : a.get? (.ofWord key) = some content) (f : β → β) :
    Tracks (n + 1) (a.modify (.ofWord key) f) ⟨m.held.insert key (f content), m.given⟩ := by
  have hindex : (Handle.ofWord key).index < 0xffffffff :=
    ((index_lt_of_get? hc).trans_le ht.size_le).trans hn
  refine ⟨ht.sound.modify _ f, (size_slots_modify f).trans_le (ht.size_le.trans (Nat.le_succ n)),
    fun i g hg => ?_, fun k => ?_, fun k hk => ?_⟩
  · rw [generation?_modify] at hg
    exact (ht.generation_le i g hg).trans (Nat.le_succ n)
  · rw [get?_modify, hc, Option.map_some]
    by_cases heq : k = key
    · rw [if_pos (congrArg Handle.ofWord heq), heq]
      exact Finmap.lookup_insert _
    · have hne : Handle.ofWord k ≠ Handle.ofWord key := fun hsame => heq
        (((Handle.ofWord_eq_iff hindex).mp hsame).trans (Handle.word_ofWord hindex))
      rw [if_neg hne, Finmap.lookup_insert_of_ne _ heq]
      exact ht.lookup_eq k
  · obtain ⟨g, hg, hold⟩ := ht.spent k hk
    refine ⟨g, (generation?_modify f _).trans hg, fun hnone => hold ?_⟩
    rw [get?_modify, hc] at hnone
    split at hnone
    · exact absurd hnone (by simp)
    · exact hnone

/-- One request to the arena is one step of the finite map. -/
theorem Tracks.step (ht : Tracks n a m) (hn : n < 0xffffffff) (call : Call β) :
    ∃ m', FreshMap.Step m call (call.run a).1 m' ∧ Tracks (n + 1) (call.run a).2 m' := by
  cases call with
  | insert content => exact ⟨_, .insert m content (ht.fresh hn content), ht.insert hn content⟩
  | remove key =>
      refine ⟨_, ?_, ht.remove hn key⟩
      rw [Call.run, fst_remove, ← ht.lookup_eq]
      exact .remove m key
  | read key =>
      refine ⟨m, ?_, ht.mono (Nat.le_succ n)⟩
      rw [Call.run, ← ht.lookup_eq]
      exact .read m key
  | change key f =>
      rcases hc : a.get? (.ofWord key) with _ | content
      · refine ⟨m, ?_, ?_⟩
        · rw [Call.run, hc]
          exact .changeNothing m key f ((ht.lookup_eq key).trans hc)
        · rw [Call.run, modify, hc]
          exact ht.mono (Nat.le_succ n)
      · refine ⟨_, ?_, ht.change hn hc f⟩
        rw [Call.run, hc]
        exact .change m key f ((ht.lookup_eq key).trans hc)
  | list => exact ⟨m, .list m (ht.lists hn), ht.mono (Nat.le_succ n)⟩
  | count =>
      refine ⟨m, ?_, ht.mono (Nat.le_succ n)⟩
      have hcount : a.size = m.held.keys.card := by
        rw [← (ht.lists hn).length_eq, listing, List.length_map, ht.sound.length_toList]
      rw [Call.run, hcount]
      exact .count m

/-- As many requests as are left below the bound are a run of the finite map. -/
theorem Tracks.runs (ht : Tracks n a m) (calls : List (Call β))
    (hn : n + calls.length ≤ 0xffffffff) :
    ∃ m', FreshMap.Runs m calls (runAll calls a).1 m' ∧
      Tracks (n + calls.length) (runAll calls a).2 m' := by
  induction calls generalizing n a m with
  | nil => exact ⟨m, .nil m, ht⟩
  | cons call calls ih =>
      rw [List.length_cons] at hn
      obtain ⟨l, hstep, hl⟩ := ht.step (by omega) call
      obtain ⟨m', hruns, hm'⟩ := ih hl (by omega)
      refine ⟨m', .cons hstep hruns, ?_⟩
      rw [List.length_cons, Nat.add_comm calls.length 1, ← Nat.add_assoc]
      exact hm'

/-- **An arena refines a finite map with fresh keys.** Fewer than `2 ^ 32` requests to an empty
arena, with any keys, are answered as by a finite map that gives out its keys: no key is given out
twice; what was inserted is found under its key as the changes of that key have left it until the
key is removed, and never after that, whatever is put into its slot; and a removal by a key under
which nothing is held leaves the arena as it is. -/
theorem runAll_refines (calls : List (Call β)) (hshort : calls.length < 0x100000000) :
    ∃ m, FreshMap.Runs .empty calls (runAll calls .empty).1 m ∧
      ((runAll calls .empty).1.filterMap Answer.key?).Nodup ∧
      (∀ before content after, calls = before ++ .insert content :: after →
        (runAll calls .empty).2.get?
            (.ofWord ((runAll before .empty).2.insert content).1.word) =
          after.foldl (Call.follow ((runAll before .empty).2.insert content).1.word)
            (some content)) ∧
      ∀ key, m.held.lookup key = none →
        (runAll calls .empty).2.remove (.ofWord key) = (none, (runAll calls .empty).2) := by
  obtain ⟨m, hruns, hm⟩ := Tracks.empty.runs calls (by omega)
  refine ⟨m, hruns, hruns.nodup_keys.1, ?_, fun key hkey =>
    remove_of_stale ((hm.lookup_eq key).symm.trans hkey)⟩
  rintro before content after rfl
  rw [List.length_append, List.length_cons] at hshort
  -- the run is taken up again where the key was given out
  obtain ⟨l, -, hl⟩ := Tracks.empty.runs before (by omega)
  obtain ⟨m₁, hinsert, hm₁⟩ := hl.step (by omega) (.insert content)
  obtain ⟨m₂, hafter, hm₂⟩ := hm₁.runs after (by omega)
  rw [runAll_append, runAll]
  dsimp only
  rw [← hm₂.lookup_eq]
  cases hinsert with
  | insert _ fresh =>
      rw [hafter.lookup_eq (Finset.mem_insert_self _ _), Finmap.lookup_insert]

/-- A run in which a slot is used again: the third insertion takes the slot of the first one, whose
word stays without a content. -/
theorem runAll_refines_reused :
    let calls : List (Call Nat) := [.insert 15, .insert 7, .remove 1, .insert 45, .read 1,
      .remove 1, .change 4294967297 (· + 1), .list, .count]
    let answers : List (Answer Nat) := [.key 1, .key 2, .content (some 15), .key 4294967297,
      .content none, .content none, .content (some 45), .contents [(4294967297, 46), (2, 7)],
      .count 2]
    calls.length < 0x100000000 ∧ (runAll calls .empty).1 = answers ∧
      (∃ m, FreshMap.Runs .empty calls answers m) ∧ (answers.filterMap Answer.key?).Nodup ∧
      (runAll calls .empty).2.get? (.ofWord 1) = none := by
  intro calls answers
  have hshort : calls.length < 0x100000000 := by decide
  have hanswers : (runAll calls .empty).1 = answers := by decide +kernel
  obtain ⟨m, hruns, hnodup, hfollow, -⟩ := runAll_refines calls hshort
  rw [hanswers] at hruns hnodup
  refine ⟨hshort, hanswers, ⟨m, hruns⟩, hnodup, ?_⟩
  have hkey : ((runAll ([] : List (Call Nat)) .empty).2.insert 15).1.word = 1 := by decide +kernel
  have hfirst := hfollow [] 15 (calls.drop 1) rfl
  rw [hkey] at hfirst
  rw [hfirst]
  decide +kernel

end Arena

end WindowLayout
