import PacketFlow.Command.Directory
import PacketFlow.Command.Host

/-!
Hosts whose files can be observed. Every path leads to some place or to none, and two paths may lead to
the same place. Reading finds what is in a file and changes nothing. Writing changes the file at one
place, or fails and changes no file at all. A directory in memory is such a host.
-/
namespace PacketFlow.Command

/-- What there is to be seen of the files in a state of the world: where a path leads, and what is in
the file that stands at a place. -/
structure Files (σ Place : Type) where
  place? : σ → String → Option Place
  content? : σ → Place → Option ByteArray

namespace Files

variable {σ Place : Type} (files : Files σ Place)

/-- What is in the file to which a path leads. -/
def contentAt? (s : σ) (path : String) : Option ByteArray :=
  (files.place? s path).bind (files.content? s)

/-- The text in the file to which a path leads. -/
def textAt? (s : σ) (path : String) : Option String :=
  (files.contentAt? s path).bind String.fromUTF8?

/-- All files are as they were. -/
def Kept (s s' : σ) : Prop :=
  ∀ place, files.content? s' place = files.content? s place

/-- The file to which a path led has a text as its content, and all other files are as they were. -/
def Written (s : σ) (path text : String) (s' : σ) : Prop :=
  ∃ place, files.place? s path = some place ∧ files.content? s' place = some text.toUTF8 ∧
    ∀ other, other ≠ place → files.content? s' other = files.content? s other

end Files

/-- A host that reaches these files and nothing else, with those bytes on standard input. Any attempt
to read or to write may fail. -/
structure Volume (σ Place : Type) extends Files σ Place where
  host : Host (StateM σ)
  input : ByteArray
  read_state (s : σ) (path : String) : ((host.read? path).run s).2 = s
  read_text {s : σ} {path text : String} (hRead : ((host.read? path).run s).1 = some text) :
    toFiles.textAt? s path = some text
  input_state (s : σ) : (host.readInput?.run s).2 = s
  input_text {s : σ} {text : String} (hRead : (host.readInput?.run s).1 = some text) :
    String.fromUTF8? input = some text
  has_state (s : σ) (path : String) : ((host.has path).run s).2 = s
  has_content {s : σ} {path : String} (hAbsent : ((host.has path).run s).1 = false) :
    toFiles.contentAt? s path = none
  write_done {s : σ} {path text : String} (hDone : ((host.write path text).run s).1 = true) :
    toFiles.Written s path text ((host.write path text).run s).2
  write_failed {s : σ} {path text : String} (hFailed : ((host.write path text).run s).1 = false) :
    toFiles.Kept s ((host.write path text).run s).2

namespace Directory

variable {d : Directory} {place other : List String}

theorem content?_put (d : Directory) (place : List String) (content : ByteArray) :
    (d.put place content).content? place = some content := by
  simp [put, content?]

theorem content?_put_of_ne (d : Directory) (content : ByteArray) (hOther : other ≠ place) :
    (d.put place content).content? other = d.content? other := by
  have hPlace : (place == other) = false := beq_false_of_ne hOther.symm
  simp only [put, content?, List.find?_cons, hPlace, List.find?_filter]
  congr 2
  funext file
  by_cases hSame : file.1 = other <;> simp [hSame, hOther]

/-- The files of a directory, wherever in it they stand. -/
def tree : Files Directory (List String) :=
  ⟨place?, content?⟩

theorem written_of_write? {d' : Directory} {path text : String}
    (hWrite : d.write? path text.toUTF8 = some d') : tree.Written d path text d' := by
  obtain ⟨place, hPlace, hPut⟩ := Option.bind_eq_some_iff.1 hWrite
  split at hPut
  · cases hPut
  · obtain rfl := Option.some.inj hPut
    exact ⟨place, hPlace, d.content?_put place _, fun _ hOther => d.content?_put_of_ne _ hOther⟩

theorem run_write (input : ByteArray) (d : Directory) (path text : String) :
    ((host input).write path text).run d =
      ((d.write? path text.toUTF8).isSome, (d.write? path text.toUTF8).getD d) := by
  simp only [host, StateT.run_bind, StateT.run_get, pure_bind]
  cases d.write? path text.toUTF8 <;> rfl

theorem contentAt?_of_has_eq_false {path : String} (hAbsent : d.has path = false) :
    tree.contentAt? d path = none := by
  rw [Files.contentAt?, Option.bind_eq_none_iff]
  intro place hPlace
  have hNone : d.isDirectory place = false ∧ d.content? place = none := by
    have hPlaced : d.place? path = some place := hPlace
    simpa [has, hPlaced] using hAbsent
  exact hNone.2

/-- A directory in memory, with those bytes on standard input. -/
def volume (input : ByteArray) : Volume Directory (List String) where
  toFiles := tree
  host := host input
  input := input
  read_state _ _ := rfl
  read_text hRead := hRead
  input_state _ := rfl
  input_text hRead := hRead
  has_state _ _ := rfl
  has_content hAbsent := contentAt?_of_has_eq_false hAbsent
  write_done := by
    intro d path text hDone
    rw [run_write] at hDone ⊢
    obtain ⟨d', hWrite⟩ := Option.isSome_iff_exists.1 hDone
    rw [hWrite]
    exact written_of_write? hWrite
  write_failed := by
    intro d path text hFailed
    rw [run_write] at hFailed ⊢
    rw [Option.isNone_iff_eq_none.1 (Option.isSome_eq_false_iff.1 hFailed)]
    exact fun _ => rfl

end Directory

end PacketFlow.Command
