import PacketFlow.Proofs.Flow.Likeness
import PacketFlow.Proofs.Ruleset.Confinement
import PacketFlow.Proofs.Ruleset.Label

/-!
Rulesets whose tables say the same. The numbers of tables, chains and rules may differ, and so may
the order of the tables. A chain of a table has as its counterpart the chain of that name in the
table of that name, and an extension every extension of its name. As rules stay within their tables,
this pairing is a likeness, and packets have one picture in both rulesets.
-/
namespace PacketFlow.Ruleset

/-- Two chains of the same name in tables of the same name, or two extensions of the same name. -/
def Counterparts (rs rs' : Ruleset) (c c' : ChainId) : Prop :=
  ∃ chain chain', rs.chain? c = some chain ∧ rs'.chain? c' = some chain' ∧
    chain.name = chain'.name ∧
      ((chain.table = none ∧ chain'.table = none) ∨
        ∃ t t' table table', chain.table = some t ∧ chain'.table = some t' ∧
          rs.table? t = some table ∧ rs'.table? t' = some table' ∧
            Text.fold table.name = Text.fold table'.name)

variable {rs rs' : Ruleset} (h : rs.Consistent) (h' : rs'.Consistent)
  (hContents : ∀ name, rs.contentNamed? name = rs'.contentNamed? name)

include h h' hContents

theorem tableContent_eq {t t' : TableId} {table table' : Table} (hTable : rs.table? t = some table)
    (hTable' : rs'.table? t' = some table')
    (hName : Text.fold table.name = Text.fold table'.name) :
    rs.tableContent table = rs'.tableContent table' := by
  have hSame := hContents table'.name
  rw [h.contentNamed?_eq_tableContent hTable hName,
    h'.contentNamed?_eq_tableContent hTable' rfl] at hSame
  exact Option.some.inj hSame

theorem chainContent_eq {t t' : TableId} {table table' : Table} {c c' : ChainId}
    {chain chain' : Chain} (hTable : rs.table? t = some table) (hTable' : rs'.table? t' = some table')
    (hName : Text.fold table.name = Text.fold table'.name) (hChain : rs.chain? c = some chain)
    (hChain' : rs'.chain? c' = some chain') (hOwner : chain.table = some t)
    (hOwner' : chain'.table = some t') (hChainName : Text.fold chain.name = Text.fold chain'.name) :
    rs.chainContent chain = rs'.chainContent chain' := by
  have hFound := h.chainNamed?_eq_chainContent hTable hChain hOwner hChainName
  rw [tableContent_eq h h' hContents hTable hTable' hName,
    h'.chainNamed?_eq_chainContent hTable' hChain' hOwner' rfl] at hFound
  exact (Option.some.inj hFound).symm

omit hContents

/-- Targets of one name, of rules in tables of one name, are counterparts. -/
theorem Counterparts.of_destination? {t t' : TableId} {table table' : Table} {c c' : ChainId}
    {chain chain' : Chain} (hTable : rs.table? t = some table) (hTable' : rs'.table? t' = some table')
    (hName : Text.fold table.name = Text.fold table'.name) (hChain : rs.chain? c = some chain)
    (hChain' : rs'.chain? c' = some chain')
    (hOwner : chain.table = some t ∨ chain.isExtension = true)
    (hOwner' : chain'.table = some t' ∨ chain'.isExtension = true)
    (hSame : rs.destination? c = rs'.destination? c') : rs.Counterparts rs' c c' := by
  simp only [destination?, hChain, hChain', Option.map_some, Option.some.injEq] at hSame
  refine ⟨chain, chain', hChain, hChain', ?_, ?_⟩
  · split at hSame <;> split at hSame <;> simp_all
  · simp only [h.isExtension_iff hChain, h'.isExtension_iff hChain'] at hOwner hOwner' hSame
    rcases hOwner with hOwner | hNone
    · rcases hOwner' with hOwner' | hNone'
      · exact Or.inr ⟨t, t', table, table', hOwner, hOwner', hTable, hTable', hName⟩
      · simp [hOwner, hNone'] at hSame
    · rcases hOwner' with hOwner' | hNone'
      · simp [hNone, hOwner'] at hSame
      · exact Or.inl ⟨hNone, hNone'⟩

/-- Rules that say the same, in tables of one name, have targets that are counterparts. -/
theorem targets_counterparts {t t' : TableId} {table table' : Table} {rule rule' : Rule}
    (hTable : rs.table? t = some table) (hTable' : rs'.table? t' = some table')
    (hName : Text.fold table.name = Text.fold table'.name) (hWithin : rs.KeepsWithin t rule.toRuleBody)
    (hWithin' : rs'.KeepsWithin t' rule'.toRuleBody)
    (hSame : rs.ruleContent rule = rs'.ruleContent rule') :
    List.Forall₂ (fun target target' => target.1 = target'.1 ∧
      rs.Counterparts rs' target.2 target'.2) rule.targets rule'.targets := by
  have hTarget (transfer : Transfer) : Option.Rel (rs.Counterparts rs') (rule.target? transfer)
      (rule'.target? transfer) := by
    have hNames : (rule.target? transfer).bind rs.destination? =
        (rule'.target? transfer).bind rs'.destination? := by
      cases transfer with
      | jump => exact congrArg RuleContent.jump hSame
      | goto => exact congrArg RuleContent.goto hSame
    have hFound {c : ChainId} (hTarget : rule.target? transfer = some c) :
        ∃ chain, rs.chain? c = some chain ∧
          (chain.table = some t ∨ chain.isExtension = true) :=
      (hWithin transfer c hTarget).imp fun _ hChain => ⟨hChain.1, hChain.2.imp_right And.right⟩
    have hFound' {c : ChainId} (hTarget : rule'.target? transfer = some c) :
        ∃ chain, rs'.chain? c = some chain ∧
          (chain.table = some t' ∨ chain.isExtension = true) :=
      (hWithin' transfer c hTarget).imp fun _ hChain => ⟨hChain.1, hChain.2.imp_right And.right⟩
    cases hSome : rule.target? transfer with
    | none =>
        cases hSome' : rule'.target? transfer with
        | none => exact .none
        | some c' =>
            obtain ⟨chain', hChain', -⟩ := hFound' hSome'
            simp [hSome, hSome', destination?, hChain'] at hNames
    | some c =>
        obtain ⟨chain, hChain, hOwner⟩ := hFound hSome
        cases hSome' : rule'.target? transfer with
        | none => simp [hSome, hSome', destination?, hChain] at hNames
        | some c' =>
            obtain ⟨chain', hChain', hOwner'⟩ := hFound' hSome'
            rw [hSome, hSome'] at hNames
            exact .some (.of_destination? h h' hTable hTable' hName hChain hChain' hOwner hOwner'
              hNames)
  rw [RuleBody.targets, RuleBody.targets]
  refine List.rel_filterMap ?_ (List.forall₂_same.2 fun _ _ => rfl)
  rintro transfer _ rfl
  have hLike := hTarget transfer
  dsimp only
  generalize rule.target? transfer = target, rule'.target? transfer = target' at hLike ⊢
  cases hLike with
  | none => exact .none
  | some hLike => exact .some ⟨rfl, hLike⟩

omit h h'

theorem Counterparts.symm {c c' : ChainId} (hLike : rs.Counterparts rs' c c') :
    rs'.Counterparts rs c' c := by
  obtain ⟨chain, chain', hChain, hChain', hChainName, hPlace⟩ := hLike
  refine ⟨chain', chain, hChain', hChain, hChainName.symm, ?_⟩
  rcases hPlace with ⟨hNone, hNone'⟩ | ⟨t, t', table, table', hOwner, hOwner', hTable, hTable', hName⟩
  · exact Or.inl ⟨hNone', hNone⟩
  · exact Or.inr ⟨t', t, table', table, hOwner', hOwner, hTable', hTable, hName.symm⟩

/-- A chain of a table has one counterpart. -/
theorem Counterparts.eq (h : rs.Consistent) (h' : rs'.Consistent) {c c' d' : ChainId}
    (hFirst : rs.Counterparts rs' c c') (hSecond : rs.Counterparts rs' c d')
    (hTable : ¬rs.IsExtension c) : c' = d' := by
  obtain ⟨chain, first, hChain, hFound, hFirstName, hPlace⟩ := hFirst
  obtain ⟨chain', second, hChain', hFound', hSecondName, hPlace'⟩ := hSecond
  obtain rfl := Option.some.inj (hChain.symm.trans hChain')
  have hSome : chain.table ≠ none := fun hNone =>
    hTable ⟨chain, hChain, (h.isExtension_iff hChain).2 hNone⟩
  obtain ⟨t, u, table, firstTable, hOwner, hFirstOwner, hTable, hFirstTable, hName⟩ :=
    hPlace.resolve_left fun hNone => hSome hNone.1
  obtain ⟨t', u', table', secondTable, hOwner', hSecondOwner, hTable', hSecondTable, hName'⟩ :=
    hPlace'.resolve_left fun hNone => hSome hNone.1
  obtain rfl := Option.some.inj (hOwner.symm.trans hOwner')
  obtain rfl := Option.some.inj (hTable.symm.trans hTable')
  obtain rfl := h'.table_unique hFirstTable hSecondTable (hName.symm.trans hName')
  refine h'.chain_unique hFound hFound' hFirstOwner hSecondOwner ?_
  rw [← hFirstName, ← hSecondName]

theorem Counterparts.exists_chainLabel? (h : rs.Consistent) (h' : rs'.Consistent)
    (hContents : ∀ name, rs.contentNamed? name = rs'.contentNamed? name) {c c' : ChainId}
    (hLike : rs.Counterparts rs' c c') :
    ∃ label, rs.chainLabel? c = some label ∧ rs'.chainLabel? c' = some label := by
  obtain ⟨chain, chain', hChain, hChain', hChainName, hPlace⟩ := hLike
  rcases hPlace with ⟨hNone, hNone'⟩ | ⟨t, t', table, table', hOwner, hOwner', hTable, hTable', hName⟩
  · refine ⟨s!"target: {chain.name}", ?_, ?_⟩
    · exact chainLabel?_of_outside hChain (.inl hNone)
    · rw [chainLabel?_of_outside hChain' (.inl hNone'), hChainName]
  · have hSame := tableContent_eq h h' hContents hTable hTable' hName
    have hTableName : table.name = table'.name := congrArg TableContent.name hSame
    refine ⟨s!"table: {table.name}, chain: {chain.name}", ?_, ?_⟩
    · rw [chainLabel?_of_table hChain hOwner (h.isExtension_of_table hChain hOwner), hTable]
      rfl
    · rw [chainLabel?_of_table hChain' hOwner' (h'.isExtension_of_table hChain' hOwner'), hTable',
        hTableName, hChainName]
      rfl

theorem rules_chainContent_of_rulesOf? {c : ChainId} {chain : Chain} {rules : List (RuleId × Rule)}
    (hChain : rs.chain? c = some chain) (hRules : rs.rulesOf? c = some rules) :
    (rs.chainContent chain).rules = rules.map fun rule => rs.ruleContent rule.2 := by
  obtain ⟨found, hFound, hFirst, hRead⟩ := rulesOf?_eq_some hRules
  obtain rfl := Option.some.inj (hFound.symm.trans hChain)
  rw [chainContent, ← hFirst, List.filterMap_map, ← List.filterMap_eq_map]
  refine List.filterMap_congr fun rule hMem => ?_
  rw [Function.comp_apply, hRead rule hMem, Option.map_some]
  rfl

/-- Rules that say the same, of chains that are counterparts in tables, are shown in the same way. -/
theorem ruleLikeness_of_content (h : rs.Consistent) (h' : rs'.Consistent) {t t' : TableId}
    {table table' : Table} {chain chain' : Chain} {place : String} {r r' : RuleId}
    {rule rule' : Rule} (hTable : rs.table? t = some table)
    (hTable' : rs'.table? t' = some table') (hName : Text.fold table.name = Text.fold table'.name)
    (hRule : rs.rule? r = some rule) (hRule' : rs'.rule? r' = some rule')
    (hChain : rs.chain? rule.chain = some chain) (hChain' : rs'.chain? rule'.chain = some chain')
    (hOwner : chain.table = some t) (hOwner' : chain'.table = some t')
    (hChainName : chain.name = chain'.name) (hPlace : rs.chainLabel? rule.chain = some place)
    (hPlace' : rs'.chainLabel? rule'.chain = some place) (hConfined : rs.Confined)
    (hConfined' : rs'.Confined) (hSame : rs.ruleContent rule = rs'.ruleContent rule') :
    rs.RuleLikeness rs' (rs.Counterparts rs') (r, rule) (r', rule') := by
  have hWithin : rs.KeepsWithin t rule.toRuleBody := by
    obtain ⟨found, u, hFound, hFoundOwner, hWithin⟩ := hConfined r rule hRule
    obtain rfl := Option.some.inj (hFound.symm.trans hChain)
    obtain rfl := Option.some.inj (hFoundOwner.symm.trans hOwner)
    exact hWithin
  have hWithin' : rs'.KeepsWithin t' rule'.toRuleBody := by
    obtain ⟨found, u, hFound, hFoundOwner, hWithin⟩ := hConfined' r' rule' hRule'
    obtain rfl := Option.some.inj (hFound.symm.trans hChain')
    obtain rfl := Option.some.inj (hFoundOwner.symm.trans hOwner')
    exact hWithin
  have hPosition : rule.position = rule'.position := congrArg RuleContent.position hSame
  refine ⟨⟨_, ruleLabel?_eq hRule hChain hPlace hWithin.targets_exist, ?_⟩, hRule, hRule',
    congrArg RuleContent.comment hSame, congrArg RuleContent.inInterface hSame,
    congrArg RuleContent.outInterface hSame,
    targets_counterparts h h' hTable hTable' hName hWithin hWithin' hSame⟩
  rw [hSame, hPosition, hChainName]
  exact ruleLabel?_eq hRule' hChain' hPlace' hWithin'.targets_exist

/-- Where tables say the same and rules stay within them, the pairing by names is a likeness. -/
theorem Counterparts.likeness (h : rs.Consistent) (h' : rs'.Consistent)
    (hContents : ∀ name, rs.contentNamed? name = rs'.contentNamed? name) (hConfined : rs.Confined)
    (hConfined' : rs'.Confined) : rs.Likeness rs' (rs.Counterparts rs') where
  label hLike := hLike.exists_chainLabel? h h' hContents
  chain hLike := by
    obtain ⟨chain, chain', hChain, hChain', -, hPlace⟩ := hLike
    refine ⟨chain, chain', hChain, hChain', ?_⟩
    rcases hPlace with ⟨hNone, hNone'⟩ | ⟨t, t', -, -, hOwner, hOwner', -⟩
    · rw [(h.isExtension_iff hChain).2 hNone, (h'.isExtension_iff hChain').2 hNone']
    · rw [h.isExtension_of_table hChain hOwner, h'.isExtension_of_table hChain' hOwner']
  unique {c c' d d'} hLike hLike' hTable := by
    have hTable' : ¬rs'.IsExtension d' := by
      obtain ⟨chain, chain', hChain, hChain', -, hPlace⟩ := hLike'
      intro hExtension
      obtain ⟨found, hFound, hExtension⟩ := hExtension
      obtain rfl := Option.some.inj (hFound.symm.trans hChain')
      rcases hPlace with ⟨hNone, -⟩ | ⟨-, t', -, -, -, hOwner', -⟩
      · exact hTable ⟨chain, hChain, (h.isExtension_iff hChain).2 hNone⟩
      · rw [h'.isExtension_of_table hChain' hOwner'] at hExtension
        cases hExtension
    constructor
    · intro hSame
      subst hSame
      exact hLike.eq h h' hLike' hTable
    · intro hSame
      subst hSame
      exact hLike.symm.eq h' h hLike'.symm hTable'
  rules {c c'} hLike hTable := by
    obtain ⟨place, hPlace, hPlace'⟩ := hLike.exists_chainLabel? h h' hContents
    obtain ⟨chain, chain', hChain, hChain', hChainName, hTables⟩ := hLike
    obtain ⟨t, t', table, table', hOwner, hOwner', hTable, hTable', hName⟩ :=
      hTables.resolve_left fun hNone =>
        hTable ⟨chain, hChain, (h.isExtension_iff hChain).2 hNone.1⟩
    have hSame := chainContent_eq h h' hContents hTable hTable' hName hChain hChain' hOwner hOwner'
      (congrArg Text.fold hChainName)
    obtain ⟨rules, hRules⟩ := h.exists_rulesOf? hChain
    obtain ⟨rules', hRules'⟩ := h'.exists_rulesOf? hChain'
    have hSame := congrArg ChainContent.rules hSame
    rw [rules_chainContent_of_rulesOf? hChain hRules,
      rules_chainContent_of_rulesOf? hChain' hRules'] at hSame
    refine ⟨rules, rules', hRules, hRules', ?_⟩
    have hPairs : List.Forall₂ (fun rule rule' => rs.ruleContent rule.2 = rs'.ruleContent rule'.2)
        rules rules' := by
      rw [← List.forall₂_eq_eq_eq, List.forall₂_map_left_iff, List.forall₂_map_right_iff] at hSame
      exact hSame
    refine List.forall₂_iff_zip.2 ⟨hPairs.length_eq, fun {rule rule'} hZip => ?_⟩
    obtain ⟨hMem, hMem'⟩ := List.of_mem_zip hZip
    obtain ⟨hRule, hOf⟩ := h.of_mem_rulesOf? hRules hMem
    obtain ⟨hRule', hOf'⟩ := h'.of_mem_rulesOf? hRules' hMem'
    exact ruleLikeness_of_content h h' hTable hTable' hName hRule hRule' (hOf ▸ hChain)
      (hOf' ▸ hChain') hOwner hOwner' hChainName (hOf ▸ hPlace) (hOf' ▸ hPlace') hConfined hConfined'
      ((List.forall₂_iff_zip.1 hPairs).2 hZip)

/-- A chain that a packet comes to at a station has a counterpart there. -/
theorem exists_chainAt? (h : rs.Consistent) (h' : rs'.Consistent)
    (hContents : ∀ name, rs.contentNamed? name = rs'.contentNamed? name) {station : Hook × String}
    {c : ChainId} (hFound : rs.chainAt? station = some c) :
    ∃ c', rs'.chainAt? station = some c' ∧ rs.Counterparts rs' c c' := by
  obtain ⟨t, table, chain, hTable, hName, hChain, hOwner, hChainName⟩ :=
    h.chainAt?_eq_some_iff.1 hFound
  have hContent := hContents station.2
  rw [h.contentNamed?_eq_tableContent hTable hName] at hContent
  obtain ⟨t', hContent', hName'⟩ := h'.contentNamed?_eq_some_iff.1 hContent.symm
  obtain ⟨table', hTable', hSame⟩ := content?_eq_some_iff.1 hContent'
  have hNamed := h.chainNamed?_eq_chainContent hTable hChain hOwner hChainName
  rw [← hSame, chainNamed?_tableContent hTable', Option.bind_eq_some_iff] at hNamed
  obtain ⟨c', hNamed, hChain'⟩ := hNamed
  obtain ⟨chain', hChain', hSameChain⟩ := Option.map_eq_some_iff.1 hChain'
  obtain ⟨found, hFound', hOwner', hChainName'⟩ := h'.chainNamed?_eq_some_iff.1 hNamed
  obtain rfl := Option.some.inj (hFound'.symm.trans hChain')
  have hTableName : Text.fold table'.name = Text.fold station.2 := by
    rw [← tableContent_name rs' table', hSame]
    exact hName
  refine ⟨c', h'.chainAt?_eq_some_iff.2 ⟨t', table', found, hTable', hTableName, hChain', hOwner',
    hChainName'⟩, chain, found, hChain, hChain', (congrArg ChainContent.name hSameChain).symm,
    Or.inr ⟨t, t', table, table', hOwner, hOwner', hTable, hTable', hName.trans hTableName.symm⟩⟩

/-- Packets come to counterparts in the same order. -/
theorem builtinChains_counterparts (h : rs.Consistent) (h' : rs'.Consistent)
    (hContents : ∀ name, rs.contentNamed? name = rs'.contentNamed? name) (origin : Origin) :
    List.Forall₂ (rs.Counterparts rs') (rs.builtinChains origin) (rs'.builtinChains origin) := by
  rw [builtinChains_eq_filterMap, builtinChains_eq_filterMap]
  refine List.rel_filterMap ?_ (List.forall₂_same.2 fun _ _ => rfl)
  intro station station' hSame
  subst hSame
  cases hFound : rs.chainAt? station with
  | some c =>
      obtain ⟨c', hFound', hLike⟩ := exists_chainAt? h h' hContents hFound
      rw [hFound']
      exact .some hLike
  | none =>
      cases hFound' : rs'.chainAt? station with
      | none => exact .none
      | some c' =>
          obtain ⟨c, hFound'', -⟩ := exists_chainAt? h' h (fun name => (hContents name).symm) hFound'
          cases hFound.symm.trans hFound''

/-- Where tables say the same and rules stay within them, packets have one picture. -/
theorem exists_picture?_of_contents (h : rs.Consistent) (h' : rs'.Consistent)
    (hContents : ∀ name, rs.contentNamed? name = rs'.contentNamed? name) (hConfined : rs.Confined)
    (hConfined' : rs'.Confined) (origin : Origin) :
    ∃ text, rs.render? origin .dot = some text ∧ rs'.render? origin .dot = some text :=
  (Counterparts.likeness h h' hContents hConfined hConfined').exists_picture?
    (builtinChains_counterparts h h' hContents origin)

end PacketFlow.Ruleset
