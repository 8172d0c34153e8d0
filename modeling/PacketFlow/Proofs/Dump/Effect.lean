import PacketFlow.Dump.Directive
import PacketFlow.Dump.Target
import PacketFlow.Dump.Warning
import PacketFlow.Proofs.Ruleset.Content

/-!
What a line does to the table that is open, told without numbers. The content of the table after the
line and the faults of the line are computed from the line and the content before it.
-/
namespace PacketFlow

open Dump (Directive Fault RuleLine)

namespace Dump

/-- The table that a line opens, by its name in small letters. -/
def Directive.opened? : Directive → Option String
  | .openTable name => some (Text.fold name)
  | _ => none

theorem exists_of_opened?_eq_some {directive : Directive} {key : String}
    (hOpened : directive.opened? = some key) :
    ∃ name, directive = .openTable name ∧ Text.fold name = key := by
  cases directive with
  | openTable name => exact ⟨name, rfl, Option.some.inj hOpened⟩
  | declareChain => cases hOpened
  | appendRule => cases hOpened
  | nothing => cases hOpened

/-- What is wrong with a line while no table is open. -/
def Directive.faultsOutside : Directive → List Fault
  | .declareChain none _ => [.malformedChain]
  | .declareChain (some name) _ => [.noCurrentTable s!":{name}"]
  | .appendRule rule =>
    match rule.chainName? with
    | none => [.missingAppendChain]
    | some name => [.noCurrentTable s!"-A {name}"]
  | _ => []

end Dump

namespace TableContent

/-- The chain of the table that a target name stands for. -/
def destinationOf? (content : TableContent) (name? : Option String) : Option Destination :=
  name?.bind fun name => (content.chainNamed? name).map (.chain ·.name)

/-- What the target name of a jump stands for, which is an extension before it is a chain. -/
def jumpOf? (content : TableContent) (name? : Option String) : Option Destination :=
  match name?.filter Dump.isExtensionName with
  | some name => some (.extension name)
  | none => content.destinationOf? name?

/-- The table with the rule of a line at the end of the chain of that name. -/
def place (content : TableContent) (name : String) (rule : RuleLine) : TableContent :=
  content.addRule name (rule.body none none) (content.jumpOf? (rule.targetName? .jump))
    (content.destinationOf? (rule.targetName? .goto))

/-- The table after a line. -/
def after (content : TableContent) : Directive → TableContent
  | .declareChain (some name) policy =>
    if (content.chainNamed? name).isSome then content else content.addChain name policy
  | .appendRule rule =>
    match rule.chainName? with
    | some name => content.place name rule
    | none => content
  | _ => content

/-- What is wrong with a target name that has to be that of a chain. -/
def targetFaults (content : TableContent) (transfer : Transfer) (name? : Option String) :
    List Fault :=
  match name? with
  | none => []
  | some name =>
    if (content.chainNamed? name).isSome || Dump.isVerdict name then []
    else [.unresolvedTarget content.name transfer name]

/-- What is wrong with the target name of a jump. -/
def jumpFaults (content : TableContent) (name? : Option String) : List Fault :=
  match name?.filter Dump.isExtensionName with
  | some _ => []
  | none => content.targetFaults .jump name?

/-- What is wrong with a line. -/
def faults (content : TableContent) : Directive → List Fault
  | .declareChain none _ => [.malformedChain]
  | .declareChain (some name) _ =>
    if (content.chainNamed? name).isSome then [.duplicateChain content.name name] else []
  | .appendRule rule =>
    match rule.chainName? with
    | none => [.missingAppendChain]
    | some name =>
      if (content.chainNamed? name).isSome then
        content.jumpFaults (rule.targetName? .jump) ++
          content.targetFaults .goto (rule.targetName? .goto)
      else [.unknownChain content.name name]
  | _ => []

/-- What a table says after a line that is for it, which may be the first that opens it. -/
def afterLine? (content? : Option TableContent) (directive : Directive) : Option TableContent :=
  match content?, directive with
  | some content, directive => some (content.after directive)
  | none, .openTable name => some ⟨name, []⟩
  | none, _ => none

@[simp]
theorem after_name (content : TableContent) (directive : Directive) :
    (content.after directive).name = content.name := by
  unfold after
  split
  · split <;> rfl
  · split <;> rfl
  · rfl

/-- Names count up to the case of their letters. -/
theorem addRule_congr (content : TableContent) {name name' : String}
    (hName : Text.fold name = Text.fold name') : content.addRule name = content.addRule name' := by
  have hSame (chain : ChainContent) :
      Text.sameName chain.name name = Text.sameName chain.name name' := by
    rw [Text.sameName, Text.sameName, hName]
  funext body jump goto
  simp only [addRule, hSame]

theorem addRule_of_chainNamed?_eq_none {content : TableContent} {name : String}
    (hNone : content.chainNamed? name = none) (body : RuleBody) (jump goto : Option Destination) :
    content.addRule name body jump goto = content := by
  rw [chainNamed?, List.find?_eq_none] at hNone
  rw [addRule]
  congr 1
  refine (List.map_congr_left fun chain hMem => ?_).trans (List.map_id _)
  rw [if_neg (hNone chain hMem), id]

end TableContent

end PacketFlow
