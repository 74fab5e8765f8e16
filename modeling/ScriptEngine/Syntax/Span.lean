/-!
Places in a script, counted in bytes of its UTF-8 form, and the texts that lie between them.
-/

namespace ScriptEngine

/-- The part of a script from byte `start` up to, and without, byte `stop`. -/
structure Span where
  start : Nat
  stop : Nat
  deriving DecidableEq, Inhabited, Repr

/-- The number of bytes that characters take. -/
def byteLength (text : List Char) : Nat :=
  text.foldr (fun c bytes => c.utf8Size + bytes) 0

/-- What follows the first `count` bytes of a text. -/
def dropBytes (count : Nat) : List Char → List Char
  | [] => []
  | c :: rest => if count == 0 then c :: rest else dropBytes (count - c.utf8Size) rest

/-- The first `count` bytes of a text, behind the characters `done`, last first. -/
def takeBytesAfter (done : List Char) (count : Nat) : List Char → List Char
  | [] => done.reverse
  | c :: rest =>
    if count == 0 then done.reverse else takeBytesAfter (c :: done) (count - c.utf8Size) rest

/-- The first `count` bytes of a text. -/
def takeBytes (count : Nat) (text : List Char) : List Char :=
  takeBytesAfter [] count text

/-- A character of a text ends, or the text begins, behind its first `count` bytes. -/
def isBoundary (count : Nat) : List Char → Bool
  | [] => count == 0
  | c :: rest => count == 0 || (c.utf8Size ≤ count && isBoundary (count - c.utf8Size) rest)

/-! ## Cutting at the end of a part -/

theorem byteLength_nil : byteLength [] = 0 :=
  rfl

theorem byteLength_cons (c : Char) (rest : List Char) :
    byteLength (c :: rest) = c.utf8Size + byteLength rest :=
  rfl

@[simp] theorem byteLength_append (text more : List Char) :
    byteLength (text ++ more) = byteLength text + byteLength more := by
  induction text with
  | nil => simp [byteLength]
  | cons c rest ih => rw [List.cons_append, byteLength_cons, byteLength_cons, ih, Nat.add_assoc]

/-- A character takes a byte at least, so a cut behind it is no cut at the start. -/
theorem cut_behind (c : Char) (count : Nat) : (c.utf8Size + count == 0) = false := by
  have positive := c.utf8Size_pos
  exact beq_eq_false_iff_ne.2 (by omega)

@[simp] theorem dropBytes_byteLength (text more : List Char) :
    dropBytes (byteLength text) (text ++ more) = more := by
  induction text with
  | nil => cases more <;> simp [byteLength, dropBytes]
  | cons c rest ih =>
    rw [List.cons_append, byteLength_cons, dropBytes, cut_behind, if_neg Bool.false_ne_true,
      Nat.add_sub_cancel_left, ih]

theorem takeBytesAfter_byteLength (text more done : List Char) :
    takeBytesAfter done (byteLength text) (text ++ more) = done.reverse ++ text := by
  induction text generalizing done with
  | nil => cases more <;> simp [byteLength, takeBytesAfter]
  | cons c rest ih =>
    rw [List.cons_append, byteLength_cons, takeBytesAfter, cut_behind, if_neg Bool.false_ne_true,
      Nat.add_sub_cancel_left, ih, List.reverse_cons, List.append_assoc, List.singleton_append]

@[simp] theorem takeBytes_byteLength (text more : List Char) :
    takeBytes (byteLength text) (text ++ more) = text :=
  takeBytesAfter_byteLength text more []

namespace Span

/-- The characters of a text that lie in a span. -/
def slice (span : Span) (text : List Char) : List Char :=
  takeBytes (span.stop - span.start) (dropBytes span.start text)

/-- The characters of a text that lie in a span; none if it ends before it starts, or starts or ends
where no character does. -/
def slice? (span : Span) (text : List Char) : Option (List Char) :=
  if span.start ≤ span.stop && isBoundary span.start text && isBoundary span.stop text then
    some (span.slice text)
  else none

/-- The part of a text between two others lies in the span behind the first. -/
theorem slice_between (before part behind : List Char) :
    slice ⟨byteLength before, byteLength before + byteLength part⟩ (before ++ (part ++ behind)) =
      part := by
  simp [slice]

/-- From the start of one span to the end of another. -/
def cover (first last : Span) : Span :=
  ⟨first.start, last.stop⟩

end Span
end ScriptEngine
