import PacketFlow.Command.Run
import PacketFlow.Proofs.Command.Readers

/-!
The reader of command lines understands a request that is spelt out. The options are read one after the
other, each into a place of its own, and the name of the command stands between those that are given
before it and those that are given after it.
-/
namespace PacketFlow.Command

namespace Flag

/-- An option is found by its name wherever it is known. -/
theorem ofLong?_long {flag : Flag} {verb : Option Verb} (hKnown : flag.isKnown verb) :
    ofLong? verb flag.long = some flag := by
  revert hKnown
  rcases verb with - | verb
  · cases flag <;> decide +kernel
  · cases flag <;> cases verb <;> decide +kernel

theorem ne_equals_of_mem_long {flag : Flag} {c : Char} (hMem : c ∈ flag.long.toList) : c ≠ '=' := by
  have hAll : flag.long.toList.all (· != '=') = true := by cases flag <;> decide +kernel
  simpa using List.all_eq_true.1 hAll c hMem

end Flag

/-- A path that is not empty can be given once. -/
theorem Given.path_of_ne {value : String} (hValue : value ≠ "") :
    path none value = .ok (some value) := by
  simp [path, hValue]

theorem Origin.toOption_ofText_name (origin : Origin) :
    (Origin.ofText origin.name).toOption = some origin := by
  cases origin <;> decide +kernel

theorem Format.named?_name (format : Format) : Format.named? format.name = some format :=
  Format.named?_eq_some_iff.2 rfl

namespace Scan

/-- The words lead from what has been read before them to what has been read after them. -/
def Leads (s : Scan) (words : List String) (s' : Scan) : Prop :=
  words.foldlM take s = .ok s'

theorem Leads.cons {s s' s'' : Scan} {word : String} {words : List String}
    (hTake : s.take word = .ok s') (hLeads : s'.Leads words s'') : s.Leads (word :: words) s'' := by
  rw [Leads, List.foldlM_cons, hTake]
  exact hLeads

theorem Leads.append {s s' s'' : Scan} {words words' : List String} (hLeads : s.Leads words s')
    (hLeads' : s'.Leads words' s'') : s.Leads (words ++ words') s'' := by
  rw [Leads, List.foldlM_append, hLeads]
  exact hLeads'

/-- What has been read of a command line in which options may follow. -/
def opened (verb : Option Verb) (outer given : Given) : Scan :=
  ⟨verb, outer, given, none, none, none, false⟩

variable {verb : Option Verb} {outer given : Given}

/-- A word with two dashes in front and more behind them is an option. -/
theorem takeDashed_of_toList {s : Scan} {word : String} {body : List Char}
    (hWord : word.toList = '-' :: '-' :: body) (hBody : body ≠ []) :
    s.takeDashed word = s.takeLong body := by
  obtain ⟨c, rest, rfl⟩ := List.exists_cons_of_ne_nil hBody
  rw [takeDashed, hWord]
  rfl

/-- An option that is spelt out gives its value to its place. -/
theorem take_spelt {flag : Flag} (hKnown : flag.isKnown verb) (hTakes : flag.takesValue)
    (value : String) : (opened verb outer given).take (spelt flag.long value) =
      (given.set flag value).map (opened verb outer) := by
  have hWord : (spelt flag.long value).toList =
      '-' :: '-' :: (flag.long.toList ++ '=' :: value.toList) := by simp [spelt]
  have hName : ∀ c ∈ flag.long.toList, (c != '=') = true := fun c hMem =>
    bne_iff_ne.2 (Flag.ne_equals_of_mem_long hMem)
  have hLong : (opened verb outer given).takeLong (flag.long.toList ++ '=' :: value.toList) =
      (opened verb outer given).takeFlag flag (some value) := by
    rw [takeLong, List.takeWhile_append_of_pos hName, List.dropWhile_append_of_pos hName]
    simp [opened, Flag.ofLong?_long hKnown]
  have hTake : (opened verb outer given).takeFlag flag (some value) =
      (given.set flag value).map (opened verb outer) := by
    simp only [takeFlag, opened, hTakes]
    cases given.set flag value <;> rfl
  exact (takeDashed_of_toList hWord (by simp)).trans (hLong.trans hTake)

/-- An option that is spelt out or left out changes what is given in its place alone. -/
theorem leads_spelt {α : Type} {value? : Option α} (flag : Flag) (text : α → String)
    (place : Option α → Given) (hKnown : flag.isKnown verb) (hTakes : flag.takesValue)
    (hUnset : place none = given)
    (hSet : ∀ value ∈ value?, given.set flag (text value) = .ok (place (some value))) :
    (opened verb outer given).Leads (value?.toList.map fun value => spelt flag.long (text value))
      (opened verb outer (place value?)) := by
  cases value? with
  | none => rw [hUnset]; rfl
  | some value =>
      refine .cons ?_ rfl
      rw [take_spelt hKnown hTakes, hSet value rfl]
      rfl

/-- A path that is given is not empty. -/
theorem ne_of_not_mem {value? : Option String} (hPath : "" ∉ value?.toList) {path : String}
    (hGiven : path ∈ value?) : path ≠ "" := by
  rintro rfl
  exact hPath (Option.mem_toList.2 hGiven)

theorem leads_config {config : Option String} (hPath : "" ∉ config.toList) :
    (opened none .empty .empty).Leads (config.toList.map (spelt "config"))
      (opened none .empty { Given.empty with config := config }) := by
  refine leads_spelt .config id ({ Given.empty with config := · }) rfl rfl rfl fun path hGiven => ?_
  rw [Given.set, id, Given.empty, Given.path_of_ne (ne_of_not_mem hPath hGiven)]
  rfl

theorem leads_file {verb : Verb} {dump : Option String} (hKnown : Flag.file.isKnown (some verb))
    (hPath : "" ∉ dump.toList) :
    (opened (some verb) outer .empty).Leads (dump.toList.map (spelt "file"))
      (opened (some verb) outer { Given.empty with file := dump }) := by
  refine leads_spelt .file id ({ Given.empty with file := · }) hKnown rfl rfl fun path hGiven => ?_
  rw [Given.set, id, Given.empty, Given.path_of_ne (ne_of_not_mem hPath hGiven)]
  rfl

theorem leads_origin {verb : Verb} {origin : Option Origin}
    (hKnown : Flag.origin.isKnown (some verb)) (hFree : given.origin = none) :
    (opened (some verb) outer given).Leads (origin.toList.map (spelt "origin" ·.name))
      (opened (some verb) outer { given with origin := origin }) := by
  refine leads_spelt .origin Origin.name ({ given with origin := · }) hKnown rfl (by rw [← hFree])
    fun value _ => ?_
  rw [Given.set, hFree, Origin.toOption_ofText_name]
  rfl

theorem leads_format {format : Option Format} (hFree : given.format = none) :
    (opened (some .flow) outer given).Leads (format.toList.map (spelt "format" ·.name))
      (opened (some .flow) outer { given with format := format }) := by
  refine leads_spelt .format Format.name ({ given with format := · }) rfl rfl (by rw [← hFree])
    fun value _ => ?_
  rw [Given.set, hFree, Format.named?_name]
  rfl

theorem leads_output {output : Option String} (hFree : given.output = none)
    (hPath : "" ∉ output.toList) :
    (opened (some .flow) outer given).Leads (output.toList.map (spelt "output"))
      (opened (some .flow) outer { given with output := output }) := by
  refine leads_spelt .output id ({ given with output := · }) rfl rfl (by rw [← hFree])
    fun path hGiven => ?_
  rw [Given.set, hFree, id, Given.path_of_ne (ne_of_not_mem hPath hGiven)]
  rfl

/-- The name of a command stands between what is given before it and after it. -/
theorem take_name (verb : Verb) :
    (opened none outer given).take verb.name = .ok (opened (some verb) given .empty) := by
  cases verb <;> rfl

/-- The words of a task are read as that task. -/
theorem exists_leads_words {task : Task} (hPaths : "" ∉ task.paths) :
    ∃ s, (opened none outer given).Leads task.words s ∧ s.finish = .ok ⟨given.config, task⟩ := by
  cases task with
  | flow dump origin format output =>
      obtain ⟨hDump, hOutput⟩ := not_or.1 (mt List.mem_append.2 hPaths)
      exact ⟨_, .cons (take_name .flow) ((((leads_file rfl hDump).append (leads_origin rfl rfl)).append
        (leads_format rfl)).append (leads_output rfl hOutput)), rfl⟩
  | tables dump => exact ⟨_, .cons (take_name .tables) (leads_file rfl hPaths), rfl⟩
  | hooks dump origin =>
      exact ⟨_, .cons (take_name .hooks) ((leads_file rfl hPaths).append (leads_origin rfl rfl)), rfl⟩
  | tokenize line => exact ⟨_, .cons (take_name .tokenize) rfl, rfl⟩

end Scan

/-- A request that is spelt out is read as it is meant. -/
theorem Request.ofWords_words {request : Request} (hSpellable : request.IsSpellable) :
    ofWords request.words = .ok request := by
  obtain ⟨hConfig, hPaths⟩ := not_or.1 (mt List.mem_append.2 hSpellable)
  obtain ⟨s, hLeads, hFinish⟩ := Scan.exists_leads_words hPaths
  have hWords := (Scan.leads_config hConfig).append hLeads
  rw [ofWords, words, Scan.start]
  exact (congrArg (· >>= Scan.finish) hWords).trans hFinish

/-- The reader of the program is one that can be relied on. -/
theorem lawful_standard : standard.Lawful where
  request_words {request} hSpellable := by
    change readWords request.words = _
    rw [readWords, Request.ofWords_words hSpellable]
    rfl
  stop_cases {words stop} hStop := by
    change readWords words = _ at hStop
    rw [readWords] at hStop
    cases hHalt : Request.ofWords words with
    | ok request => rw [hHalt] at hStop; cases hStop
    | error halt =>
        rw [hHalt] at hStop
        cases hStop
        cases halt <;> simp [Halt.stop]

end PacketFlow.Command
