/- Reading packed bins.
   A cursor reads one item after another. It keeps the current word and the shift of the next
   field in it, and moves to the next word after the lowest field. It stops when all samples are
   read or the words run out. `Packing.itemAt` says which field each sample is read from. -/

import Boosting.Packing.Layout

set_option autoImplicit false
set_option relaxedAutoImplicit false

namespace Boosting

namespace Packing

def field (bits : Nat) (word : Word) (shift : Nat) : Nat :=
  (word >>> shift &&& lowMask bits).toNat

structure Cursor where
  /-- Words not yet read. -/
  words : List Word
  word : Word
  /-- The shift of the next field in the current word. -/
  shift : Nat
  /-- The shift at which the next word starts. -/
  nextStart : Nat
  /-- The shift at which a full word starts. -/
  fullStart : Nat
  bits : Nat
  /-- Whether the current word is used up. -/
  wordDone : Bool
  /-- Samples not yet read. -/
  remaining : Nat
deriving DecidableEq

namespace Cursor

def start (words : List Word) (items samples : Nat) : Cursor :=
  let bits := fieldBits items
  { words
    word := 0#64
    shift := 0
    nextStart := (samples - 1) % items * bits
    fullStart := (items - 1) * bits
    bits
    wordDone := true
    remaining := samples }

def start? (words : List Word) (items samples : Nat) : Option Cursor :=
  if validItems items then some (start words items samples) else none

/-- The cursor with a current word that is not used up, if there is one. -/
def load? (c : Cursor) : Option Cursor :=
  if c.wordDone then
    match c.words with
    | [] => none
    | word :: words =>
      some { c with words, word, shift := c.nextStart, nextStart := c.fullStart, wordDone := false }
  else
    some c

def advance (c : Cursor) : Cursor :=
  { c with
    shift := c.shift - c.bits
    wordDone := c.shift == 0
    remaining := c.remaining - 1 }

/-- The next item and the cursor after it; a cursor at its end stays. -/
def next (c : Cursor) : Option Nat × Cursor :=
  if c.remaining = 0 then
    (none, c)
  else
    match c.load? with
    | none => (none, c)
    | some loaded => (some (field loaded.bits loaded.word loaded.shift), loaded.advance)

/-- Skips `skipped` items and reads the next one; the end is never passed. -/
def nth : Nat → Cursor → Option Nat × Cursor
  | 0, c => c.next
  | skipped + 1, c =>
    match c.next with
    | (none, after) => (none, after)
    | (some _, after) => nth skipped after

def takeUpTo : Nat → Cursor → List Nat × Cursor
  | 0, c => ([], c)
  | count + 1, c =>
    match c.next with
    | (none, after) => ([], after)
    | (some item, after) =>
      let (items, last) := takeUpTo count after
      (item :: items, last)

def drain (c : Cursor) : List Nat × Cursor :=
  c.takeUpTo c.remaining

def items (c : Cursor) : List Nat :=
  c.drain.1

/-- The number of items that are left, from the fields and samples that are left. The product of the
words and the items of a word is a natural number here. A machine word holds it too: there are at
most 64 items in a word, so it passes `2 ^ 64` only for `2 ^ 58` words, which no memory can hold. -/
def size (c : Cursor) : Nat :=
  let inWord := if c.wordDone then 0 else c.shift / c.bits + 1
  min c.remaining (c.words.length * (c.fullStart / c.bits + 1) + inWord)

end Cursor

def unpack (words : List Word) (items samples : Nat) : List Nat :=
  (Cursor.start words items samples).items

/-- The number of samples that packed words hold, up to `samples`. -/
def available (words items samples : Nat) : Nat :=
  if samples = 0 || words = 0 then
    0
  else
    min samples (firstCount samples items + (words - 1) * items)

/-- The item of sample `i`, by the word and the field that hold it. -/
def itemAt (words : List Word) (items samples i : Nat) : Nat :=
  let bits := fieldBits items
  let first := firstCount samples items
  if i < first then
    field bits (words.getD 0 0#64) ((first - 1 - i) * bits)
  else
    field bits (words.getD (1 + (i - first) / items) 0#64)
      ((items - 1 - (i - first) % items) * bits)

end Packing

end Boosting
