import PacketFlow.Proofs.Command.Scan
import PacketFlow.Proofs.Command.Volume
import PacketFlow.Proofs.Dump.Ownership
import PacketFlow.Proofs.Flow.Rendering

/-!
What a run does to the files. Everything that is read is read before anything is written, and the answer
is complete by then, so a run writes at most one file, in its last step. A run that fails leaves all
files as they were, and there is always something outside of the rules that makes it fail.
-/
namespace PacketFlow.Command

section Actions

variable {σ α β : Type}

/-- The action, begun in a state, ends with a result and in a state that are as required. -/
def Ensures (action : ExceptT Failure (StateM σ) α) (s : σ)
    (post : Except Failure α → σ → Prop) : Prop :=
  post (action.run.run s).1 (action.run.run s).2

/-- The action, begun in a state, leaves it as it is, and has a value or fails as required. -/
def Finds (action : ExceptT Failure (StateM σ) α) (s : σ) (value : α → Prop)
    (fails : Failure → Prop) : Prop :=
  Ensures action s fun result s' => s' = s ∧
    match result with
    | .ok a => value a
    | .error failure => fails failure

theorem Ensures.mono {action : ExceptT Failure (StateM σ) α} {s : σ}
    {post post' : Except Failure α → σ → Prop} (hEnsures : Ensures action s post)
    (hPost : ∀ result s', post result s' → post' result s') : Ensures action s post' :=
  hPost _ _ hEnsures

variable {action : ExceptT Failure (StateM σ) α} {next : α → ExceptT Failure (StateM σ) β} {s : σ}
  {value : α → Prop} {fails : Failure → Prop}

theorem ensures_bind {post : Except Failure β → σ → Prop} (hFinds : Finds action s value fails)
    (hNext : ∀ a, value a → Ensures (next a) s post)
    (hFails : ∀ failure, fails failure → post (.error failure) s) :
    Ensures (action >>= next) s post := by
  obtain ⟨hState, hResult⟩ := hFinds
  have hBind : (action >>= next).run.run s =
      match (action.run.run s).1 with
      | .ok a => (next a).run.run (action.run.run s).2
      | .error failure => (.error failure, (action.run.run s).2) := by
    change (ExceptT.bindCont next (action.run.run s).1).run (action.run.run s).2 = _
    cases (action.run.run s).1 <;> rfl
  rw [Ensures, hBind, hState]
  cases hEnd : (action.run.run s).1 with
  | ok a => exact hNext a (by rwa [hEnd] at hResult)
  | error failure => exact hFails failure (by rwa [hEnd] at hResult)

theorem ensures_lift_bind {step : StateM σ α} {post : Except Failure β → σ → Prop} :
    Ensures (liftM step >>= next) s post ↔ Ensures (next (step.run s).1) (step.run s).2 post :=
  Iff.rfl

/-- A question to the host leaves the state as it is. -/
theorem ensures_ask {question : StateM σ α} {post : Except Failure β → σ → Prop}
    (hState : (question.run s).2 = s) (hNext : Ensures (next (question.run s).1) s post) :
    Ensures (liftM question >>= next) s post := by
  rwa [ensures_lift_bind, hState]

theorem finds_pure {a : α} (hValue : value a) : Finds (pure a) s value fails :=
  ⟨rfl, hValue⟩

theorem finds_throw {failure : Failure} (hFails : fails failure) :
    Finds (throw failure : ExceptT Failure (StateM σ) α) s value fails :=
  ⟨rfl, hFails⟩

theorem Finds.mono {value' : α → Prop} {fails' : Failure → Prop} (hFinds : Finds action s value fails)
    (hValue : ∀ a, value a → value' a) (hFails : ∀ failure, fails failure → fails' failure) :
    Finds action s value' fails' := by
  obtain ⟨hState, hResult⟩ := hFinds
  refine ⟨hState, ?_⟩
  cases hEnd : (action.run.run s).1 with
  | ok a => exact hValue a (by rwa [hEnd] at hResult)
  | error failure => exact hFails failure (by rwa [hEnd] at hResult)

end Actions

section Answers

variable (text : String) (origin : Origin)

/-- The rules of a dump refer to nothing that does not exist. -/
theorem sound_read : (Dump.read text).ruleset.Consistent ∧ (Dump.read text).ruleset.Confined :=
  have hSound := Dump.sound_readLines (Text.lines text)
  ⟨hSound.built.consistent, hSound.confined⟩

theorem exists_render?_read (format : Format) :
    ∃ rendering, (Dump.read text).ruleset.render? origin format = some rendering :=
  (sound_read text).1.exists_render? (sound_read text).2.targetsExist origin format

theorem exists_tableListing?_read : ∃ listing, tableListing? (Dump.read text) = some listing := by
  obtain ⟨tables, hTables⟩ := (sound_read text).1.exists_summary?
  exact ⟨_, by rw [tableListing?, hTables]; rfl⟩

theorem exists_hookListing?_read :
    ∃ listing, hookListing? (Dump.read text).ruleset origin = some listing := by
  have hConsistent := (sound_read text).1
  obtain ⟨lines, hLines⟩ : ∃ lines, ((Dump.read text).ruleset.builtinChains origin).mapM
      (hookLine? (Dump.read text).ruleset) = some lines := by
    refine exists_mapM_eq_some fun c hMem => ?_
    obtain ⟨chain, hChain, -⟩ := hConsistent.exists_of_mem_builtinChains hMem
    obtain ⟨label, hLabel⟩ := hConsistent.exists_chainLabel? hChain
    exact ⟨_, by rw [hookLine?, hChain, hLabel]; rfl⟩
  exact ⟨_, by rw [hookListing?, hLines]; rfl⟩

end Answers

/-- The dump that a task names, if it is a task about a dump at all. -/
def Task.dump? : Task → Option (Option String)
  | .flow dump _ _ _ => some dump
  | .tables dump => some dump
  | .hooks dump _ => some dump
  | .tokenize _ => none

/-- Whether a task is to draw a graph. -/
def Task.isFlow : Task → Bool
  | .flow .. => true
  | _ => false

namespace Volume

variable {σ Place : Type} (v : Volume σ Place) (readers : Readers) (s : σ)

/-- The file at a path cannot be read as a text. -/
def Unread (path : String) : Prop :=
  ((v.host.read? path).run s).1 = none

/-- The settings in force, where the command line may name a file of settings. -/
inductive InForce : Option String → Config → Prop
  | named {path text : String} {settings : Settings} {config : Config}
      (hText : v.textAt? s path = some text) (hSettings : readers.settings? text = some settings)
      (hGives : settings.Gives config) : InForce (some path) config
  | usual {config : Config} (hNamed : InForce (some defaultConfigPath) config) : InForce none config
  | unset (hAbsent : v.contentAt? s defaultConfigPath = none) : InForce none ⟨none, .forward, .dot, none⟩

/-- The text of a dump: what is in the file at a path, or on standard input if there is no path or one
that stands for standard input. -/
inductive DumpText : Option String → String → Prop
  | file {path text : String} (hPath : isStandardInput path = false)
      (hText : v.textAt? s path = some text) : DumpText (some path) text
  | input {path? : Option String} {text : String} (hPath : ∀ path ∈ path?, isStandardInput path)
      (hText : String.fromUTF8? v.input = some text) : DumpText path? text

/-- The settings in force, and what has to be drawn of the dump: what the command line leaves open is
taken from the settings. -/
inductive Drawn (named dump : Option String) (origin : Option Origin) (format : Option Format) :
    Config → String → Prop
  | intro {config : Config} {text rendering : String} (hConfig : v.InForce readers s named config)
      (hText : v.DumpText s (dump <|> config.dump) text)
      (hRendering : (Dump.read text).ruleset.render? (origin.getD config.origin)
        (format.getD config.format) = some rendering) :
      Drawn named dump origin format config rendering

/-- Why no settings are in force. -/
inductive ConfigFails : Option String → Failure → Prop
  | unread {path : String} (hUnread : v.Unread s path) :
      ConfigFails (some path) (.configUnread path)
  | malformed {path text : String} (hText : v.textAt? s path = some text)
      (hMalformed : ∀ settings config, readers.settings? text = some settings → ¬settings.Gives config) :
      ConfigFails (some path) .configMalformed
  | usual {failure : Failure} (hFails : ConfigFails (some defaultConfigPath) failure) :
      ConfigFails none failure

/-- Why there is no dump. -/
inductive DumpFails : Option String → Failure → Prop
  | unread {path : String} (hPath : isStandardInput path = false) (hUnread : v.Unread s path) :
      DumpFails (some path) (.dumpUnread path)
  | input {path? : Option String} (hPath : ∀ path ∈ path?, isStandardInput path)
      (hUnread : (v.host.readInput?.run s).1 = none) : DumpFails path? .inputUnread

/-- Why a request cannot be carried out: one of the files in its way cannot be read or is not as it has
to be, or the output cannot be written. -/
inductive Hinders : Request → Failure → Prop
  | config {named : Option String} {task : Task} {failure : Failure}
      (hFails : v.ConfigFails readers s named failure) : Hinders ⟨named, task⟩ failure
  | dump {named dump : Option String} {task : Task} {config : Config} {failure : Failure}
      (hConfig : v.InForce readers s named config) (hTask : task.dump? = some dump)
      (hFails : v.DumpFails s (dump <|> config.dump) failure) : Hinders ⟨named, task⟩ failure
  | output {named dump output : Option String} {origin : Option Origin} {format : Option Format}
      {config : Config} {rendering path : String}
      (hDrawn : v.Drawn readers s named dump origin format config rendering)
      (hPath : (output <|> config.output) = some path)
      (hUnwritten : ((v.host.write path rendering).run s).1 = false) :
      Hinders ⟨named, .flow dump origin format output⟩ (.graphUnwritten path)

/-- A graph has been given out: it is printed and all files are as they were, or it is in the file at a
path, which is then named, and no other file has changed. -/
def Delivered (origin : Origin) (rendering : String) (path? : Option String) (printed : String)
    (s' : σ) : Prop :=
  match path? with
  | none => printed = rendering ∧ v.Kept s s'
  | some path =>
    printed = s!"✅ Wrote {origin.name} graph to {path}\n" ∧ v.Written s path rendering s'

/-- What comes of a request: a graph is given out, or something is listed, or the request fails. Files
change in the first case alone. -/
inductive CarriedOut : Request → Except Failure String → σ → Prop
  | drawn {named dump output : Option String} {origin : Option Origin} {format : Option Format}
      {config : Config} {rendering printed : String} {s' : σ}
      (hDrawn : v.Drawn readers s named dump origin format config rendering)
      (hDelivered : v.Delivered s (origin.getD config.origin) rendering (output <|> config.output)
        printed s') :
      CarriedOut ⟨named, .flow dump origin format output⟩ (.ok printed) s'
  | listed {named : Option String} {task : Task} {printed : String} (hTask : task.isFlow = false) :
      CarriedOut ⟨named, task⟩ (.ok printed) s
  | failed {request : Request} {failure : Failure} {s' : σ}
      (hHinders : v.Hinders readers s request failure) (hKept : v.Kept s s') :
      CarriedOut request (.error failure) s'

variable {v readers s}

theorem finds_readConfig (path : String) : Finds (readConfig readers v.host path) s
    (v.InForce readers s (some path)) (v.ConfigFails readers s (some path)) := by
  refine ensures_ask (v.read_state s path) ?_
  cases hRead : ((v.host.read? path).run s).1 with
  | none => exact finds_throw (.unread hRead)
  | some text =>
      have hText := v.read_text hRead
      dsimp only
      cases hConfig : readers.config? text with
      | none =>
          refine finds_throw (.malformed hText fun settings config hSettings hGives => ?_)
          cases hConfig.symm.trans (Readers.config?_eq_some_iff.2 ⟨settings, hSettings, hGives⟩)
      | some config =>
          obtain ⟨settings, hSettings, hGives⟩ := Readers.config?_eq_some_iff.1 hConfig
          exact finds_pure (.named hText hSettings hGives)

theorem finds_loadConfig (named : Option String) : Finds (loadConfig readers v.host named) s
    (v.InForce readers s named) (v.ConfigFails readers s named) := by
  cases named with
  | some path => exact finds_readConfig path
  | none =>
      refine ensures_ask (v.has_state s defaultConfigPath) ?_
      cases hHas : ((v.host.has defaultConfigPath).run s).1 with
      | false => exact finds_pure (.unset (v.has_content hHas))
      | true => exact (finds_readConfig defaultConfigPath).mono (fun _ => .usual) fun _ => .usual

theorem finds_readDump (path? : Option String) : Finds (readDump v.host path?) s
    (fun session => ∃ text, v.DumpText s path? text ∧ session = Dump.read text)
    (v.DumpFails s path?) := by
  unfold readDump
  split
  next path hFile =>
    obtain ⟨rfl, hDashless⟩ := Option.filter_eq_some_iff.1 hFile
    have hPath : isStandardInput path = false := by simpa using hDashless
    refine ensures_ask (v.read_state s path) ?_
    cases hRead : ((v.host.read? path).run s).1 with
    | none => exact finds_throw (.unread hPath hRead)
    | some text => exact finds_pure ⟨text, .file hPath (v.read_text hRead), rfl⟩
  next hInput =>
    have hPath : ∀ path ∈ path?, isStandardInput path := by
      simpa [Option.filter_eq_none_iff] using hInput
    refine ensures_ask (v.input_state s) ?_
    cases hRead : (v.host.readInput?.run s).1 with
    | none => exact finds_throw (.input hPath hRead)
    | some text => exact finds_pure ⟨text, .input hPath (v.input_text hRead), rfl⟩

/-- All questions about the rules of a dump have an answer. -/
theorem finds_fromRules {answer : Option String} (hAnswer : ∃ text, answer = some text) :
    Finds (fromRules answer) s (fun text => answer = some text) fun _ => False := by
  obtain ⟨text, rfl⟩ := hAnswer
  exact finds_pure rfl

theorem ensures_deliver (origin : Origin) (rendering : String) (path? : Option String) :
    Ensures (deliver v.host origin rendering path?) s fun result s' =>
      match result with
      | .ok printed => v.Delivered s origin rendering path? printed s'
      | .error failure => v.Kept s s' ∧ ∃ path, path? = some path ∧
          ((v.host.write path rendering).run s).1 = false ∧ failure = .graphUnwritten path := by
  cases path? with
  | none => exact ⟨rfl, fun _ => rfl⟩
  | some path =>
      rw [deliver, ensures_lift_bind]
      cases hWrite : ((v.host.write path rendering).run s).1 with
      | true => exact ⟨rfl, v.write_done hWrite⟩
      | false => exact ⟨v.write_failed hWrite, path, rfl, hWrite, rfl⟩

variable {config : Config} {named dump : Option String}

/-- A listing of what is in a dump. -/
theorem ensures_listing {task : Task} {listing? : Dump.Session → Option String}
    (hConfig : v.InForce readers s named config) (hTask : task.dump? = some dump)
    (hFlow : task.isFlow = false)
    (hListing : ∀ text, ∃ listing, listing? (Dump.read text) = some listing) :
    Ensures (do fromRules (listing? (← readDump v.host (dump <|> config.dump)))) s
      (v.CarriedOut readers s ⟨named, task⟩) := by
  refine ensures_bind (finds_readDump _) ?_ fun failure hFails =>
    .failed (.dump hConfig hTask hFails) fun _ => rfl
  rintro session ⟨text, -, rfl⟩
  obtain ⟨listing, hListed⟩ := hListing text
  rw [hListed]
  exact .listed hFlow

theorem ensures_perform (hConfig : v.InForce readers s named config) (task : Task) :
    Ensures (perform v.host config task) s (v.CarriedOut readers s ⟨named, task⟩) := by
  cases task with
  | flow dump origin format output =>
      refine ensures_bind (finds_readDump _) ?_ fun failure hFails =>
        .failed (.dump hConfig rfl hFails) fun _ => rfl
      rintro session ⟨text, hText, rfl⟩
      refine ensures_bind (finds_fromRules (exists_render?_read text _ _)) ?_ fun _ => False.elim
      intro rendering hRendering
      have hDrawn := Drawn.intro hConfig hText hRendering
      refine (ensures_deliver _ rendering _).mono fun result s' hResult => ?_
      cases result with
      | ok printed => exact .drawn hDrawn hResult
      | error failure =>
          obtain ⟨hKept, path, hPath, hUnwritten, rfl⟩ := hResult
          exact .failed (.output hDrawn hPath hUnwritten) hKept
  | tables dump =>
      exact ensures_listing hConfig rfl rfl exists_tableListing?_read
  | hooks dump origin =>
      exact ensures_listing hConfig rfl rfl fun text => exists_hookListing?_read text _
  | tokenize line => exact .listed rfl

theorem ensures_answer (request : Request) :
    Ensures (answer readers v.host request) s (v.CarriedOut readers s request) :=
  ensures_bind (finds_loadConfig request.config)
    (fun _ hConfig => ensures_perform hConfig request.task)
    fun _ hFails => .failed (.config hFails) fun _ => rfl

end Volume

/-- How a run ends whose request has this result. -/
def Outcome.ofResult : Except Failure String → Outcome
  | .ok printed => done printed
  | .error failure => failed failure

variable {σ Place : Type} {v : Volume σ Place} {readers : Readers} {words : List String} {s s' : σ}
  {outcome : Outcome}

theorem execute_of_ok {host : Host (StateM σ)} {request : Request}
    (hWords : readers.request words = .ok request) : (execute readers host words).run s =
      (.ofResult ((answer readers host request).run.run s).1,
        ((answer readers host request).run.run s).2) := by
  rw [execute, hWords]
  change StateT.run (match ((answer readers host request).run.run s).1 with
    | .ok printed => return Outcome.done printed
    | .error failure => return Outcome.failed failure)
      ((answer readers host request).run.run s).2 = _
  cases ((answer readers host request).run.run s).1 <;> rfl

/-- A request that has been read is carried out. -/
theorem carriedOut_of_ok {request : Request} (hWords : readers.request words = .ok request)
    (hRun : (execute readers v.host words).run s = (outcome, s')) :
    ∃ result, v.CarriedOut readers s request result s' ∧ outcome = .ofResult result := by
  obtain ⟨rfl, rfl⟩ := Prod.mk.inj ((execute_of_ok hWords).symm.trans hRun)
  exact ⟨_, Volume.ensures_answer request, rfl⟩

/-- Without a request nothing is done. -/
theorem kept_of_error {stop : Stop} (hWords : readers.request words = .error stop)
    (hRun : (execute readers v.host words).run s = (outcome, s')) :
    v.Kept s s' ∧ outcome = .stopped stop := by
  rw [execute, hWords] at hRun
  obtain ⟨rfl, rfl⟩ := Prod.mk.inj hRun
  exact ⟨fun _ => rfl, rfl⟩

/-- Whichever readers a program has, a run changes no file but the one into which it writes a graph. That
happens if it is a run for a graph, succeeds, and the command line or else the settings give an output;
otherwise the same text is printed. What is drawn is told by the files as they were before the run, even if
one of them is then overwritten. A run that fails changes no file, prints nothing, and has a reason. The
command line may be any that asks for the graph, and one that spells the options out does. -/
theorem execute_spares_files (hLawful : readers.Lawful)
    (hRun : (execute readers v.host words).run s = (outcome, s')) :
    (outcome.exitCode ≠ 0 → v.Kept s s' ∧ outcome.output = "" ∧
      ((∃ stop, readers.request words = .error stop ∧ outcome = .stopped stop) ∨
        ∃ request failure, readers.request words = .ok request ∧ outcome = .failed failure ∧
          v.Hinders readers s request failure)) ∧
    ((∀ request, readers.request words = .ok request → request.task.isFlow = false) →
      v.Kept s s') ∧
    (∀ named dump origin format output,
      readers.request words = .ok ⟨named, .flow dump origin format output⟩ →
      outcome.exitCode = 0 →
      ∃ config rendering, v.Drawn readers s named dump origin format config rendering ∧
        v.Delivered s (origin.getD config.origin) rendering (output <|> config.output)
          outcome.output s') ∧
    ∀ request : Request, request.IsSpellable → words = request.words →
      ∃ result, v.CarriedOut readers s request result s' ∧ outcome = .ofResult result := by
  have hSpelt : ∀ request : Request, request.IsSpellable → words = request.words →
      ∃ result, v.CarriedOut readers s request result s' ∧ outcome = .ofResult result := by
    rintro request hSpellable rfl
    exact carriedOut_of_ok (hLawful.request_words hSpellable) hRun
  cases hWords : readers.request words with
  | error stop =>
      obtain ⟨hKept, rfl⟩ := kept_of_error hWords hRun
      refine ⟨fun hFailed => ⟨hKept, ?_, .inl ⟨stop, rfl, rfl⟩⟩, fun _ => hKept,
        fun _ _ _ _ _ hFlow => (by cases hFlow), hSpelt⟩
      obtain hGranted | ⟨-, hSilent⟩ := hLawful.stop_cases hWords
      · exact absurd hGranted hFailed
      · exact hSilent
  | ok request =>
      obtain ⟨result, hCarried, rfl⟩ := carriedOut_of_ok hWords hRun
      cases hCarried with
      | drawn hDrawn hDelivered =>
          refine ⟨fun hFailed => absurd rfl hFailed, fun hOther => ?_, ?_, hSpelt⟩
          · cases hOther _ rfl
          intro _ _ _ _ _ hFlow _
          cases hFlow
          exact ⟨_, _, hDrawn, hDelivered⟩
      | listed hTask =>
          refine ⟨fun hFailed => absurd rfl hFailed, fun _ _ => rfl, ?_, hSpelt⟩
          intro _ _ _ _ _ hFlow
          cases hFlow
          cases hTask
      | failed hHinders hKept =>
          refine ⟨fun _ => ⟨hKept, rfl, .inr ⟨_, _, rfl, rfl, hHinders⟩⟩, fun _ => hKept, ?_, hSpelt⟩
          intro _ _ _ _ _ _ hDone
          cases hDone

/-- A directory with a dump in it, and settings by which the dump is overwritten. -/
def Directory.shelf : Directory :=
  ⟨[(["dump"], "*filter\n".toUTF8), (["vipt.yaml"], "format: json\noutput: dump\n".toUTF8)]⟩

/-- The dump is overwritten with the graph that it had. -/
theorem execute_spares_files_overwritten : ∃ rendering,
    (Dump.read "*filter\n").ruleset.render? .inside .json = some rendering ∧
      ((execute standard (Directory.volume .empty).host
        ["flow", "-f", "dump", "--origin", "local"]).run Directory.shelf).2.content? ["dump"] =
          some rendering.toUTF8 := by
  have hWords : standard.request ["flow", "-f", "dump", "--origin", "local"] =
      .ok ⟨none, .flow (some "dump") (some .inside) none none⟩ := by decide +kernel
  have hDone : ((execute standard (Directory.volume .empty).host
      ["flow", "-f", "dump", "--origin", "local"]).run Directory.shelf).1.exitCode = 0 := by
    decide +kernel
  have hUsual : Directory.tree.textAt? Directory.shelf defaultConfigPath =
      some "format: json\noutput: dump\n" := by decide +kernel
  have hSet : standard.settings? "format: json\noutput: dump\n" =
      some ⟨none, none, some "json", some "dump"⟩ := by decide +kernel
  have hDump : Directory.tree.textAt? Directory.shelf "dump" = some "*filter\n" := by decide +kernel
  have hPlace : Directory.tree.place? Directory.shelf "dump" = some ["dump"] := by decide +kernel
  obtain ⟨-, -, hFlow, -⟩ := execute_spares_files lawful_standard (Prod.eta ((execute standard
    (Directory.volume .empty).host ["flow", "-f", "dump", "--origin", "local"]).run
      Directory.shelf)).symm
  obtain ⟨config, rendering, ⟨hConfig, hText, hRendering⟩, hDelivered⟩ :=
    hFlow _ _ _ _ _ hWords hDone
  obtain ⟨hFormat, hOutput⟩ : config.format = .json ∧ config.output = some "dump" := by
    cases hConfig with
    | usual hNamed =>
        obtain ⟨hText, hSettings, hGives⟩ := hNamed
        cases hUsual.symm.trans hText
        cases hSet.symm.trans hSettings
        exact ⟨Option.some.inj (Format.named?_eq_some_iff.2 hGives.format).symm, hGives.output⟩
    | unset hAbsent =>
        rw [Files.textAt?, show Directory.tree.contentAt? _ _ = none from hAbsent] at hUsual
        cases hUsual
  rw [hOutput] at hDelivered
  rw [hFormat] at hRendering
  refine ⟨rendering, ?_, ?_⟩
  · cases hText with
    | file hPath hText =>
        cases hDump.symm.trans hText
        exact hRendering
    | input hPath hText => cases hPath "dump" rfl
  · obtain ⟨place, hLed, hContent, -⟩ := hDelivered.2
    cases hPlace.symm.trans hLed
    exact hContent

end PacketFlow.Command
