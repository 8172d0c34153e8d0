import PacketFlow.Json.Basic
import PacketFlow.Proofs.Dot.Escape
import PacketFlow.Proofs.Text.Words

/-!
JSON texts tell their values. The first character of a value tells its form, and a value ends where
its form lets it end: a string at its first bare quote, a number before the first character that is
no digit, a list or an object at the bracket that stands on a line after the last of its items. So a
value is told from every text that begins with it, as long as no digit follows it.
-/
namespace PacketFlow.Json

open Dot (Sealed)

/-- What holds of lists and objects if it holds of all values in them holds of all values. -/
theorem induction {Holds : Json → Prop} (text : ∀ s, Holds (.text s))
    (number : ∀ n, Holds (.number n)) (truth : ∀ b, Holds (.truth b))
    (list : ∀ elements, (∀ e ∈ elements, Holds e) → Holds (.list elements))
    (object : ∀ members, (∀ m ∈ members, Holds m.2) → Holds (.object members)) (v : Json) :
    Holds v :=
  @Json.rec Holds (fun elements => ∀ e ∈ elements, Holds e)
    (fun members => ∀ m ∈ members, Holds m.2) (fun m => Holds m.2) text number truth list object
    (List.forall_mem_nil _) (fun _ _ hHead hTail => List.forall_mem_cons.2 ⟨hHead, hTail⟩)
    (List.forall_mem_nil _) (fun _ _ hHead hTail => List.forall_mem_cons.2 ⟨hHead, hTail⟩)
    (fun _ _ hValue => hValue) v

section Strings

/-- The number that a digit in base sixteen stands for. -/
def hexValue (digit : Char) : Nat :=
  if digit.isDigit then digit.toNat - '0'.toNat else digit.toNat - 'a'.toNat + 10

/-- The character that a letter behind a backslash stands for. -/
def lettered (letter : Char) : Char :=
  match letter with
  | 'n' => '\n'
  | 't' => '\t'
  | 'r' => '\r'
  | 'b' => '\x08'
  | 'f' => '\x0c'
  | _ => letter

/-- The text that stands between the quotes of a string. -/
def unescape : List Char → List Char
  | [] => []
  | '\\' :: 'u' :: a :: b :: c :: d :: rest =>
    Char.ofNat ([a, b, c, d].foldl (fun n digit => 16 * n + hexValue digit) 0) :: unescape rest
  | '\\' :: letter :: rest => lettered letter :: unescape rest
  | c :: rest => c :: unescape rest

theorem hexValue_hexDigit : ∀ n < 16, hexValue (hexDigit n) = n := by
  decide

theorem unescape_cons_of_ne {c : Char} (hSlash : c ≠ '\\') (rest : List Char) :
    unescape (c :: rest) = c :: unescape rest := by
  rw [unescape]
  · exact fun _ _ _ _ _ hSame _ => hSlash hSame
  · exact fun _ _ hSame _ => hSlash hSame

theorem unescape_escapeChar_append (c : Char) (rest : List Char) :
    unescape (escapeChar c ++ rest) = c :: unescape rest := by
  unfold escapeChar
  split
  case h_8 hQuote hSlash _ _ _ _ _ =>
    split
    next hControl =>
      have hHigh := hexValue_hexDigit (c.toNat / 16) (by omega)
      have hLow := hexValue_hexDigit (c.toNat % 16) (by omega)
      have hZero : hexValue '0' = 0 := rfl
      have hCode : 16 * (c.toNat / 16) + c.toNat % 16 = c.toNat := Nat.div_add_mod _ _
      simp [unescape, hHigh, hLow, hZero, hCode]
    next => exact unescape_cons_of_ne hSlash rest
  all_goals rfl

theorem unescape_flatMap_escapeChar (cs : List Char) :
    unescape (cs.flatMap escapeChar) = cs := by
  induction cs with
  | nil => rfl
  | cons c cs ih => rw [List.flatMap_cons, unescape_escapeChar_append, ih]

theorem hexDigit_ne : ∀ n < 16, hexDigit n ≠ '"' ∧ hexDigit n ≠ '\\' := by
  decide

theorem sealed_escapeChar (c : Char) : Sealed '"' (escapeChar c) := by
  unfold escapeChar
  split
  case h_8 hQuote hSlash _ _ _ _ _ =>
    split
    next hControl =>
      obtain ⟨hHighQuote, hHighSlash⟩ := hexDigit_ne (c.toNat / 16) (by omega)
      obtain ⟨hLowQuote, hLowSlash⟩ := hexDigit_ne (c.toNat % 16) (by omega)
      have hDigits : Sealed '"' [hexDigit (c.toNat / 16), hexDigit (c.toNat % 16)] :=
        .bare hHighQuote hHighSlash (.bare hLowQuote hLowSlash .nil)
      exact .escaped 'u' (.bare (by decide) (by decide) (.bare (by decide) (by decide) hDigits))
    next => exact .bare hQuote hSlash .nil
  all_goals exact .escaped _ .nil

theorem sealed_flatMap_escapeChar (cs : List Char) : Sealed '"' (cs.flatMap escapeChar) := by
  induction cs with
  | nil => exact .nil
  | cons c cs ih =>
      rw [List.flatMap_cons]
      exact (sealed_escapeChar c).append ih

/-- A string ends at its first bare quote, and its text can be read back. -/
theorem quote_append_inj {s t : String} {rest rest' : List Char}
    (hSame : (quote s).toList ++ rest = (quote t).toList ++ rest') : s = t ∧ rest = rest' := by
  have hWritten (s : String) (rest : List Char) :
      (quote s).toList ++ rest = '"' :: (s.toList.flatMap escapeChar ++ '"' :: rest) := by
    simp [quote]
  rw [hWritten, hWritten] at hSame
  obtain ⟨hTexts, hRest⟩ := Sealed.append_inj (by decide) (sealed_flatMap_escapeChar _)
    (sealed_flatMap_escapeChar _) (List.cons.inj hSame).2
  have hRead := congrArg unescape hTexts
  rw [unescape_flatMap_escapeChar, unescape_flatMap_escapeChar] at hRead
  exact ⟨String.toList_inj.1 hRead, hRest⟩

end Strings

section Numbers

/-- Nothing follows that a number could go on with. -/
def EndsNumber (rest : List Char) : Prop :=
  ∀ c ∈ rest.head?, c.isDigit = false

theorem EndsNumber.cons {c : Char} (hEnd : c.isDigit = false) (rest : List Char) :
    EndsNumber (c :: rest) := by
  intro d hMem
  obtain rfl := Option.some.inj hMem
  exact hEnd

theorem takeWhile_isDigit_append (n : Nat) {rest : List Char} (hEnd : EndsNumber rest) :
    ((toString n).toList ++ rest).takeWhile Char.isDigit = (toString n).toList := by
  have hNone : rest.takeWhile Char.isDigit = [] := by
    cases rest with
    | nil => rfl
    | cons c rest => exact List.takeWhile_cons_of_neg (by simp [hEnd c rfl])
  rw [List.takeWhile_append_of_pos fun _ => Text.isDigit_of_mem_toString, hNone, List.append_nil]

theorem toString_append_inj {m n : Nat} {rest rest' : List Char} (hEnd : EndsNumber rest)
    (hEnd' : EndsNumber rest')
    (hSame : (toString m).toList ++ rest = (toString n).toList ++ rest') :
    m = n ∧ rest = rest' := by
  have hDigits := congrArg (List.takeWhile Char.isDigit) hSame
  rw [takeWhile_isDigit_append m hEnd, takeWhile_isDigit_append n hEnd'] at hDigits
  rw [hDigits] at hSame
  exact ⟨Text.toString_injective (String.toList_inj.1 hDigits), List.append_cancel_left hSame⟩

end Numbers

section Blocks

variable {α : Type}

/-- Each item is told from every text that begins with it and has no digit behind it. -/
def ToldFrom (written : α → List Char) (x : α) : Prop :=
  ∀ y rest rest', EndsNumber rest → EndsNumber rest' →
    written x ++ rest = written y ++ rest' → x = y ∧ rest = rest'

variable {written : α → List Char} {depth : Nat}

/-- The blanks that a line at that depth begins with. -/
def indentation (depth : Nat) : List Char :=
  (String.join (List.replicate depth "  ")).toList

theorem toList_newline (depth : Nat) : (newline depth).toList = '\n' :: indentation depth := by
  simp [newline, indentation]

/-- Items after the first, each on a line of its own. -/
def further (depth : Nat) (written : α → List Char) (xs : List α) : List Char :=
  xs.flatMap fun x => ',' :: '\n' :: (indentation depth ++ written x)

/-- Items between brackets, each on a line of its own. -/
def block (depth : Nat) (opening closing : Char) (written : α → List Char) : List α → List Char
  | [] => [opening, closing]
  | x :: xs => opening :: '\n' :: (indentation (depth + 1) ++ (written x ++
      (further (depth + 1) written xs ++ '\n' :: (indentation depth ++ [closing]))))

theorem endsNumber_further (xs : List α) (rest : List Char) :
    EndsNumber (further depth written xs ++ '\n' :: rest) := by
  cases xs with
  | nil => exact .cons rfl _
  | cons => exact .cons rfl _

/-- A comma announces a further item, and a line break alone the end. -/
theorem further_append_inj {xs ys : List α} (hTold : ∀ x ∈ xs, ToldFrom written x)
    {rest rest' : List Char}
    (hSame : further depth written xs ++ '\n' :: rest = further depth written ys ++ '\n' :: rest') :
    xs = ys ∧ rest = rest' := by
  induction xs generalizing ys with
  | nil =>
      cases ys with
      | nil => exact ⟨rfl, (List.cons.inj hSame).2⟩
      | cons y ys => exact absurd (List.cons.inj hSame).1 (by decide)
  | cons x xs ih =>
      cases ys with
      | nil => exact absurd (List.cons.inj hSame).1 (by decide)
      | cons y ys =>
          obtain ⟨hHead, hTail⟩ := List.forall_mem_cons.1 hTold
          simp only [further, List.flatMap_cons, List.cons_append, List.append_assoc,
            List.cons.injEq, true_and, List.append_cancel_left_eq] at hSame
          obtain ⟨rfl, hRest⟩ := hHead y _ _ (endsNumber_further xs rest)
            (endsNumber_further ys rest') hSame
          obtain ⟨rfl, hEnds⟩ := ih hTail hRest
          exact ⟨rfl, hEnds⟩

theorem block_append_inj {opening closing : Char} (hClosing : closing ≠ '\n') {xs ys : List α}
    (hTold : ∀ x ∈ xs, ToldFrom written x) {rest rest' : List Char}
    (hSame : block depth opening closing written xs ++ rest =
      block depth opening closing written ys ++ rest') : xs = ys ∧ rest = rest' := by
  cases xs with
  | nil =>
      cases ys with
      | nil => exact ⟨rfl, by simpa [block] using hSame⟩
      | cons y ys => simp [block, hClosing] at hSame
  | cons x xs =>
      cases ys with
      | nil => simp [block, hClosing.symm] at hSame
      | cons y ys =>
          obtain ⟨hHead, hTail⟩ := List.forall_mem_cons.1 hTold
          simp only [block, List.cons_append, List.append_assoc, List.cons.injEq, true_and,
            List.append_cancel_left_eq] at hSame
          obtain ⟨rfl, hItems⟩ := hHead y _ _ (endsNumber_further xs _) (endsNumber_further ys _) hSame
          obtain ⟨rfl, hEnds⟩ := further_append_inj hTail hItems
          have hRest := List.append_cancel_left hEnds
          exact ⟨rfl, (List.cons.inj hRest).2⟩

end Blocks

section Values

/-- The forms of values. -/
inductive Form where
  | text
  | number
  | truth
  | list
  | object

def form : Json → Form
  | text _ => .text
  | number _ => .number
  | truth _ => .truth
  | list _ => .list
  | object _ => .object

/-- The form of the values that begin with a character. -/
def formOf (first : Char) : Form :=
  if first.isDigit then .number
  else
    match first with
    | '"' => .text
    | '[' => .list
    | '\x7b' => .object
    | _ => .truth

theorem toList_writeElements (depth : Nat) (elements : List Json) :
    (writeElements depth elements).toList =
      further depth (fun e => (e.write depth).toList) elements := by
  induction elements with
  | nil => rfl
  | cons e elements ih => simp [writeElements, further, toList_newline, ih]

theorem toList_writeMembers (depth : Nat) (members : List (String × Json)) :
    (writeMembers depth members).toList =
      further depth (fun m => (writeMember depth m).toList) members := by
  induction members with
  | nil => rfl
  | cons m members ih => simp [writeMembers, further, toList_newline, ih]

theorem toList_write_list (depth : Nat) (elements : List Json) :
    ((list elements).write depth).toList =
      block depth '[' ']' (fun e => (e.write (depth + 1)).toList) elements := by
  cases elements with
  | nil => simp [write, block]
  | cons e elements => simp [write, block, toList_newline, toList_writeElements]

theorem toList_write_object (depth : Nat) (members : List (String × Json)) :
    ((object members).write depth).toList =
      block depth '\x7b' '\x7d' (fun m => (writeMember (depth + 1) m).toList) members := by
  cases members with
  | nil => simp [write, block]
  | cons m members => simp [write, block, toList_newline, toList_writeMembers]

theorem exists_write_eq_cons (depth : Nat) (v : Json) :
    ∃ first rest, (v.write depth).toList = first :: rest ∧ formOf first = v.form := by
  cases v with
  | text s => exact ⟨'"', s.toList.flatMap escapeChar ++ ['"'], by simp [write, quote], rfl⟩
  | number n =>
      obtain ⟨first, rest, hText⟩ : ∃ first rest, (toString n).toList = first :: rest :=
        List.exists_cons_of_ne_nil fun hNil =>
          (Text.isWord_toString n).ne_empty (String.toList_eq_nil_iff.1 hNil)
      have hDigit : first.isDigit = true :=
        Text.isDigit_of_mem_toString (hText ▸ List.mem_cons_self)
      exact ⟨first, rest, by rw [write, hText], if_pos hDigit⟩
  | truth b =>
      cases b with
      | true => exact ⟨'t', ['r', 'u', 'e'], by simp [write], rfl⟩
      | false => exact ⟨'f', ['a', 'l', 's', 'e'], by simp [write], rfl⟩
  | list elements =>
      rw [toList_write_list]
      cases elements <;> exact ⟨'[', _, rfl, rfl⟩
  | object members =>
      rw [toList_write_object]
      cases members <;> exact ⟨'\x7b', _, rfl, rfl⟩

/-- Texts that begin with values begin with values of one form. -/
theorem form_eq_of_append_eq {depth : Nat} {v w : Json} {rest rest' : List Char}
    (hSame : (v.write depth).toList ++ rest = (w.write depth).toList ++ rest') :
    v.form = w.form := by
  obtain ⟨first, _, hFirst, hForm⟩ := exists_write_eq_cons depth v
  obtain ⟨first', _, hFirst', hForm'⟩ := exists_write_eq_cons depth w
  rw [hFirst, hFirst', List.cons_append, List.cons_append, List.cons.injEq] at hSame
  rw [← hForm, ← hForm', hSame.1]

theorem toldFrom_writeMember {depth : Nat} {m : String × Json}
    (hTold : ToldFrom (fun v : Json => (v.write depth).toList) m.2) :
    ToldFrom (fun m => (writeMember depth m).toList) m := by
  have hWritten (m : String × Json) (rest : List Char) : (writeMember depth m).toList ++ rest =
      (quote m.1).toList ++ ':' :: ' ' :: ((m.2.write depth).toList ++ rest) := by
    obtain ⟨key, value⟩ := m
    simp [writeMember]
  intro m' rest rest' hEnd hEnd' hSame
  rw [hWritten, hWritten] at hSame
  obtain ⟨hKey, hValues⟩ := quote_append_inj hSame
  obtain ⟨hValue, hRest⟩ := hTold m'.2 rest rest' hEnd hEnd'
    (List.cons.inj (List.cons.inj hValues).2).2
  exact ⟨Prod.ext hKey hValue, hRest⟩

/-- A value is told from every text that begins with it, as long as no digit follows it. -/
theorem toldFrom_write (v : Json) : ∀ depth, ToldFrom (fun v : Json => (v.write depth).toList) v := by
  induction v using Json.induction with
  | text s =>
      intro depth w rest rest' hEnd hEnd' hSame
      have hForm := form_eq_of_append_eq hSame
      cases w with
      | text t =>
          obtain ⟨rfl, hRest⟩ := quote_append_inj hSame
          exact ⟨rfl, hRest⟩
      | _ => cases hForm
  | number n =>
      intro depth w rest rest' hEnd hEnd' hSame
      have hForm := form_eq_of_append_eq hSame
      cases w with
      | number n' =>
          obtain ⟨rfl, hRest⟩ := toString_append_inj hEnd hEnd' hSame
          exact ⟨rfl, hRest⟩
      | _ => cases hForm
  | truth b =>
      intro depth w rest rest' hEnd hEnd' hSame
      have hForm := form_eq_of_append_eq hSame
      cases w with
      | truth b' => cases b <;> cases b' <;> simp_all [write]
      | _ => cases hForm
  | list elements ih =>
      intro depth w rest rest' hEnd hEnd' hSame
      have hForm := form_eq_of_append_eq hSame
      cases w with
      | list elements' =>
          simp only [toList_write_list] at hSame
          obtain ⟨rfl, hRest⟩ := block_append_inj (by decide) (fun e hMem => ih e hMem _) hSame
          exact ⟨rfl, hRest⟩
      | _ => cases hForm
  | object members ih =>
      intro depth w rest rest' hEnd hEnd' hSame
      have hForm := form_eq_of_append_eq hSame
      cases w with
      | object members' =>
          simp only [toList_write_object] at hSame
          obtain ⟨rfl, hRest⟩ := block_append_inj (by decide)
            (fun m hMem => toldFrom_writeMember (ih m hMem _)) hSame
          exact ⟨rfl, hRest⟩
      | _ => cases hForm

/-- Every document is the document of one value. -/
theorem pretty_injective : Function.Injective pretty := by
  intro v w hSame
  have hEnd : EndsNumber [] := fun c hMem => by cases hMem
  have hTexts : (v.write 0).toList ++ [] = (w.write 0).toList ++ [] :=
    congrArg (fun text : String => text.toList ++ []) hSame
  exact (toldFrom_write v 0 w [] [] hEnd hEnd hTexts).1

end Values

end PacketFlow.Json
