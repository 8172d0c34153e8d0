import PacketFlow.Dot.Statement
import PacketFlow.Proofs.Dot.Escape

/-!
What is written as the language has it. Bare words are made of letters, digits and underscores, and
strings have no bare quote in them. A statement is its first word and what follows it, and what follows
is nothing that the word could go on with.
-/
namespace PacketFlow.Dot

/-- A character that bare words are made of. -/
def isWordChar (c : Char) : Bool :=
  c.isAlphanum || c == '_'

/-- A bare word. -/
def IsWord (s : String) : Prop :=
  s ≠ "" ∧ s.toList.all isWordChar = true

instance (s : String) : Decidable (IsWord s) :=
  inferInstanceAs (Decidable (_ ∧ _))

/-- Nothing follows that a bare word could go on with. -/
def EndsWord (rest : List Char) : Prop :=
  ∀ c ∈ rest.head?, isWordChar c = false

theorem EndsWord.cons {c : Char} (hEnd : isWordChar c = false) (rest : List Char) :
    EndsWord (c :: rest) := by
  intro d hMem
  obtain rfl := Option.some.inj hMem
  exact hEnd

theorem IsWord.append {first second : String} (hFirst : IsWord first)
    (hSecond : second.toList.all isWordChar = true) : IsWord (first ++ second) := by
  constructor
  · intro hEmpty
    have hNil := congrArg String.toList hEmpty
    rw [String.toList_append, String.toList_empty, List.append_eq_nil_iff] at hNil
    exact hFirst.1 (String.toList_eq_nil_iff.1 hNil.1)
  · rw [String.toList_append, List.all_append, hFirst.2, hSecond]
    rfl

/-- A value that is written as the language has it: no word with other characters in it, and no
string with a bare quote. -/
def Value.Legible : Value → Prop
  | word text => IsWord text
  | quoted written => Sealed '"' written.toList

theorem Value.legible_ofText (text : String) : (Value.ofText text).Legible :=
  sealed_escape text

theorem Value.ofText_inj {text text' : String} :
    Value.ofText text = Value.ofText text' ↔ text = text' := by
  rw [Value.ofText, Value.ofText, Value.quoted.injEq]
  exact escape_injective.eq_iff

structure Attribute.Legible (a : Attribute) : Prop where
  name : IsWord a.name
  value : a.value.Legible

mutual

/-- A statement that is written as the language has it. -/
def Statement.Legible : Statement → Prop
  | .node name attributes => IsWord name ∧ ∀ a ∈ attributes, a.Legible
  | .edge source target attributes =>
    IsWord source ∧ IsWord target ∧ ∀ a ∈ attributes, a.Legible
  | .setting a => a.Legible
  | .cluster name body => IsWord name ∧ Statement.AllLegible body

/-- Statements that are written as the language has them. -/
def Statement.AllLegible : List Statement → Prop
  | [] => True
  | statement :: rest => statement.Legible ∧ Statement.AllLegible rest

end

section Attributes

/-- Attributes after the first. -/
def writeFurther (attributes : List Attribute) : List Char :=
  attributes.flatMap fun a => ',' :: ' ' :: a.write.toList

theorem toList_writeAttributes_cons (a : Attribute) (attributes : List Attribute) :
    (writeAttributes (a :: attributes)).toList =
      ' ' :: '[' :: (a.write.toList ++ (writeFurther attributes ++ [']'])) := by
  have hJoined (first : Attribute) :
      (", ".intercalate ((first :: attributes).map Attribute.write)).toList =
        first.write.toList ++ writeFurther attributes := by
    induction attributes generalizing first with
    | nil => simp [writeFurther]
    | cons second others ih =>
        rw [List.map_cons, List.map_cons, String.intercalate_cons_cons, ← List.map_cons,
          String.toList_append, ih second]
        simp [writeFurther]
  rw [writeAttributes, if_neg (by simp), String.toList_append, String.toList_append, hJoined]
  simp

theorem endsWord_writeFurther (attributes : List Attribute) (rest : List Char) :
    EndsWord (writeFurther attributes ++ ']' :: rest) := by
  cases attributes with
  | nil => exact .cons rfl _
  | cons => exact .cons rfl _

theorem endsWord_writeAttributes (attributes : List Attribute) (rest : List Char) :
    EndsWord ((writeAttributes attributes).toList ++ ';' :: rest) := by
  cases attributes with
  | nil => exact .cons rfl _
  | cons a others =>
      rw [toList_writeAttributes_cons]
      exact .cons rfl _

end Attributes

section Statements

/-- The forms of statements. -/
inductive Form where
  | node
  | edge
  | setting
  | cluster
  deriving DecidableEq, Repr

namespace Statement

/-- What holds of a cluster if it holds of all statements in it holds of all statements. -/
theorem induction {Holds : Statement → Prop}
    (node : ∀ name attributes, Holds (.node name attributes))
    (edge : ∀ source target attributes, Holds (.edge source target attributes))
    (setting : ∀ a, Holds (.setting a))
    (cluster : ∀ name body, (∀ s ∈ body, Holds s) → Holds (.cluster name body))
    (s : Statement) : Holds s :=
  @Statement.rec Holds (fun body => ∀ s ∈ body, Holds s) node edge setting cluster
    (List.forall_mem_nil _)
    (fun _ _ hHead hTail => List.forall_mem_cons.2 ⟨hHead, hTail⟩) s

def form : Statement → Form
  | node .. => .node
  | edge .. => .edge
  | setting _ => .setting
  | cluster .. => .cluster

/-- The word that a statement begins with. -/
def firstWord : Statement → String
  | node name _ => name
  | edge source .. => source
  | setting a => a.name
  | cluster .. => "subgraph"

/-- What is written of a statement after its first word. -/
def afterFirst (depth : Nat) : Statement → List Char
  | node _ attributes => (writeAttributes attributes).toList ++ [';', '\n']
  | edge _ target attributes =>
    ' ' :: '-' :: '>' :: ' ' :: (target.toList ++ ((writeAttributes attributes).toList ++ [';', '\n']))
  | setting a => '=' :: (a.value.write.toList ++ [';', '\n'])
  | cluster name body =>
    ' ' :: (name.toList ++ ' ' :: '\x7b' :: '\n' :: ((writeAll (depth + 1) body).toList ++
      ((indent depth).toList ++ ['\x7d', '\n'])))

theorem toList_write (depth : Nat) (s : Statement) : (s.write depth).toList =
    (indent depth).toList ++ (s.firstWord.toList ++ s.afterFirst depth) := by
  cases s <;> simp [write, firstWord, afterFirst, Attribute.write]

theorem endsWord_afterFirst (s : Statement) (depth : Nat) (rest : List Char) :
    EndsWord (s.afterFirst depth ++ rest) := by
  cases s with
  | node name attributes =>
      rw [afterFirst, List.append_assoc]
      exact endsWord_writeAttributes attributes _
  | edge source target attributes => exact .cons rfl _
  | setting a => exact .cons rfl _
  | cluster name body => exact .cons rfl _

theorem Legible.firstWord {s : Statement} (hLegible : s.Legible) : IsWord s.firstWord := by
  cases s with
  | node name attributes => exact hLegible.1
  | edge source target attributes => exact hLegible.1
  | setting a => exact hLegible.name
  | cluster name body =>
      show IsWord "subgraph"
      decide

theorem toList_indent_succ (depth : Nat) :
    (indent (depth + 1)).toList = (indent depth).toList ++ [' ', ' '] := by
  simp [indent, List.replicate_succ', String.toList_join]

end Statement

/-- A directed graph that is written as the language has it. -/
structure Diagram.Legible (d : Diagram) : Prop where
  name : IsWord d.name
  body : Statement.AllLegible d.body

end Statements

end PacketFlow.Dot
