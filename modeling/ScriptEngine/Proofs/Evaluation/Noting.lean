import ScriptEngine.Proofs.Orderly.Calls

/-!
An engine that notes what happens: when a statement begins, when a `try` statement goes on to its handler or its
finalizer, and when a nested call is refused. What is written down of it is added to what is printed. Where nothing
is written down it is the engine itself.
-/

namespace ScriptEngine

/-! ## Noting what happens -/

/-- What may be noted of a run. -/
inductive Event where
  /-- Something is printed. -/
  | printed (text : String)
  /-- A statement begins. -/
  | began (s : Stmt)
  /-- The block of a handler or of a finalizer begins. -/
  | resumed (b : Block)
  /-- A call is refused, because so many are nested already. -/
  | refused (depth : Nat)

/-- What is written down when something happens, among what is printed. -/
structure Notes where
  began : Stmt → String
  resumed : Block → String
  refused : Nat → String

namespace Notes

/-- Nothing is written down. -/
def none : Notes := ⟨fun _ => "", fun _ => "", fun _ => ""⟩

def text (notes : Notes) : Event → String
  | .printed text => text
  | .began s => notes.began s
  | .resumed b => notes.resumed b
  | .refused depth => notes.refused depth

/-- All that is printed and written down of what happens. -/
def texts (notes : Notes) : List Event → String
  | [] => ""
  | e :: rest => notes.text e ++ notes.texts rest

theorem texts_append (notes : Notes) (early late : List Event) :
    notes.texts (early ++ late) = notes.texts early ++ notes.texts late := by
  induction early with
  | nil => exact String.empty_append.symm
  | cons e rest ih => rw [List.cons_append, texts, texts, ih, String.append_assoc]

end Notes

/-- Writes something down. -/
def write (text : String) : Eval Unit :=
  modify fun m => { m with output := m.output ++ text }

section Observed

variable (notes : Notes) (engine : Engine)

end Observed

/-! ## The engine itself -/

theorem write_nothing : write "" = pure () := by
  funext m
  obtain ⟨heap, environments, context, callers, callDepth, output, realm, options⟩ := m
  change EStateM.Result.ok () (Machine.mk _ _ _ _ _ (output ++ "") _ _) = _
  rw [String.append_empty]
  rfl

end ScriptEngine
