import PacketFlow.Proofs.Dot.Reading

/-!
What the statements of a directed graph name, and where they stand. A block is what stands between two
braces that belong together. Nodes and clusters are named on all levels; an edge is tied to nodes, and
to the first node of a cluster where it is to end at the cluster.
-/
namespace PacketFlow.Dot

section Names

/-- The words that no node is called by. A statement that begins with one is about something else. -/
def keywords : List String :=
  ["node", "edge", "graph", "digraph", "subgraph", "strict"]

namespace Statement

/-- The name of the node that a statement is about. -/
def nodeName? : Statement → Option String
  | node name _ => if name ∈ keywords then none else some name
  | _ => none

/-- The name of the cluster that a statement is. -/
def clusterName? : Statement → Option String
  | cluster name _ => some name
  | _ => none

/-- The name by which edges are tied to a node, or to a cluster. -/
def tie? : Statement → Option String
  | cluster _ body => body.findSome? nodeName?
  | s => s.nodeName?

/-- The names that an edge is tied to. -/
def ends? : Statement → Option (String × String)
  | edge source target _ => some (source, target)
  | _ => none

/-- The values that an edge has for an attribute. -/
def values (name : String) : Statement → List Value
  | edge _ _ attributes => (attributes.filter (·.name == name)).map (·.value)
  | _ => []

mutual

/-- The names of the nodes of a statement and of all statements inside it. -/
def nodeNames : Statement → List String
  | node name attributes => (node name attributes).nodeName?.toList
  | edge .. => []
  | setting _ => []
  | cluster _ body => allNodeNames body

def allNodeNames : List Statement → List String
  | [] => []
  | s :: others => s.nodeNames ++ allNodeNames others

end

mutual

/-- The names of the clusters of a statement and of all statements inside it. -/
def clusterNames : Statement → List String
  | node .. => []
  | edge .. => []
  | setting _ => []
  | cluster name body => name :: allClusterNames body

def allClusterNames : List Statement → List String
  | [] => []
  | s :: others => s.clusterNames ++ allClusterNames others

end

theorem allNodeNames_eq_flatMap (body : List Statement) :
    allNodeNames body = body.flatMap nodeNames := by
  induction body with
  | nil => rfl
  | cons s others ih => rw [allNodeNames, ih, List.flatMap_cons]

theorem allClusterNames_eq_flatMap (body : List Statement) :
    allClusterNames body = body.flatMap clusterNames := by
  induction body with
  | nil => rfl
  | cons s others ih => rw [allClusterNames, ih, List.flatMap_cons]

theorem allNodeNames_append (first second : List Statement) :
    allNodeNames (first ++ second) = allNodeNames first ++ allNodeNames second := by
  simp only [allNodeNames_eq_flatMap, List.flatMap_append]

theorem allClusterNames_append (first second : List Statement) :
    allClusterNames (first ++ second) = allClusterNames first ++ allClusterNames second := by
  simp only [allClusterNames_eq_flatMap, List.flatMap_append]

end Statement

end Names

section Blocks

/-- The statements of the first cluster of that name. -/
def bodyOf? (block : List Statement) (name : String) : Option (List Statement) :=
  block.findSome? fun
    | .cluster other body => if other = name then some body else none
    | _ => none

/-- The statements of the innermost of clusters one in the other. -/
def blockIn? (block : List Statement) : List String → Option (List Statement)
  | [] => some block
  | name :: rest => (bodyOf? block name).bind (blockIn? · rest)

/-- The block is the whole, or stands in it as a cluster, or in a cluster of it. -/
inductive IsBlockOf (block : List Statement) : List Statement → Prop
  | whole : IsBlockOf block block
  | inside {name : String} {outer inner : List Statement} (hMem : .cluster name inner ∈ outer)
      (hBlock : IsBlockOf block inner) : IsBlockOf block outer

variable {block inner : List Statement} {name : String}

theorem mem_of_bodyOf?_eq_some (hBody : bodyOf? block name = some inner) :
    .cluster name inner ∈ block := by
  obtain ⟨s, hMem, hFound⟩ := List.exists_of_findSome?_eq_some hBody
  split at hFound
  · obtain ⟨rfl, hSame⟩ := Option.ite_none_right_eq_some.1 hFound
    rwa [← Option.some.inj hSame]
  · cases hFound

/-- A cluster is found if it is the only one of its name. -/
theorem bodyOf?_eq_some_of_mem (hMem : .cluster name inner ∈ block)
    (hOnly : ∀ body, .cluster name body ∈ block → body = inner) : bodyOf? block name = some inner := by
  cases hBody : bodyOf? block name with
  | none =>
      have hNone := List.findSome?_eq_none_iff.1 hBody _ hMem
      simp at hNone
  | some body => rw [hOnly body (mem_of_bodyOf?_eq_some hBody)]

/-- The tokens of a cluster stand together within those of the block that it is in. -/
theorem infix_allTokens_of_mem {s : Statement} (hMem : s ∈ block) :
    s.tokens <:+: Statement.allTokens block := by
  induction block with
  | nil => cases hMem
  | cons first others ih =>
      rw [Statement.allTokens]
      rcases List.mem_cons.1 hMem with rfl | hMem
      · exact (List.prefix_append _ _).isInfix
      · exact (ih hMem).trans (List.suffix_append _ _).isInfix

theorem infix_tokens_of_blockIn? {names : List String}
    (hBlock : blockIn? block (names ++ [name]) = some inner) :
    (Statement.cluster name inner).tokens <:+: Statement.allTokens block := by
  induction names generalizing block with
  | nil =>
      rw [List.nil_append, blockIn?, Option.bind_eq_some_iff] at hBlock
      obtain ⟨body, hBody, hInner⟩ := hBlock
      rw [blockIn?, Option.some.injEq] at hInner
      rw [← hInner]
      exact infix_allTokens_of_mem (mem_of_bodyOf?_eq_some hBody)
  | cons first names ih =>
      rw [List.cons_append, blockIn?, Option.bind_eq_some_iff] at hBlock
      obtain ⟨body, hBody, hInner⟩ := hBlock
      have hOuter := infix_allTokens_of_mem (mem_of_bodyOf?_eq_some hBody)
      refine ((ih hInner).trans ?_).trans hOuter
      rw [Statement.tokens]
      exact ⟨[.word "subgraph", .word first, .mark '\x7b'], [.mark '\x7d'], by simp⟩

end Blocks

section Balance

/-- How many braces are open after a token. A brace can be closed only if one is open. -/
def Token.brace? (depth : Nat) : Token → Option Nat
  | .mark '\x7b' => some (depth + 1)
  | .mark '\x7d' => if depth = 0 then none else some (depth - 1)
  | _ => some depth

/-- How many braces are open after tokens. -/
def openBraces? (depth : Nat) (ts : List Token) : Option Nat :=
  ts.foldlM Token.brace? depth

/-- Each closing brace has an opening one before it that is its own, and none is left open. -/
def Balanced (ts : List Token) : Prop :=
  openBraces? 0 ts = some 0

theorem openBraces?_append (depth : Nat) (ts us : List Token) :
    openBraces? depth (ts ++ us) = (openBraces? depth ts).bind (openBraces? · us) :=
  List.foldlM_append

theorem openBraces?_of_isPlain {ts : List Token} (hPlain : ∀ t ∈ ts, t.isPlain = true) (depth : Nat) :
    openBraces? depth ts = some depth := by
  induction ts with
  | nil => rfl
  | cons t ts ih =>
      rw [List.forall_mem_cons] at hPlain
      have hToken : t.brace? depth = some depth := by
        unfold Token.brace?
        split <;> simp_all [Token.isPlain]
      rw [openBraces?, List.foldlM_cons, hToken]
      exact ih hPlain.2

theorem openBraces?_allTokens {statements : List Statement}
    (hClosed : ∀ s ∈ statements, ∀ depth, openBraces? depth s.tokens = some depth) (depth : Nat) :
    openBraces? depth (Statement.allTokens statements) = some depth := by
  induction statements with
  | nil => rfl
  | cons s others ih =>
      rw [List.forall_mem_cons] at hClosed
      rw [Statement.allTokens, openBraces?_append, hClosed.1 depth, Option.bind_some, ih hClosed.2]

/-- A block between braces leaves as many braces open as there were. -/
theorem openBraces?_block {head body : List Token} (hHead : ∀ t ∈ head, t.isPlain = true)
    (hBody : ∀ depth, openBraces? depth body = some depth) (depth : Nat) :
    openBraces? depth (head ++ .mark '\x7b' :: (body ++ [.mark '\x7d'])) = some depth := by
  have hOpen (ts : List Token) : openBraces? depth (.mark '\x7b' :: ts) = openBraces? (depth + 1) ts :=
    rfl
  have hClose : openBraces? (depth + 1) [.mark '\x7d'] = some depth := rfl
  rw [openBraces?_append, openBraces?_of_isPlain hHead, Option.bind_some, hOpen, openBraces?_append,
    hBody, Option.bind_some, hClose]

theorem Statement.Simple.openBraces?_tokens {s : Statement} {ts : List Token} (hSimple : s.Simple ts)
    (depth : Nat) : openBraces? depth s.tokens = some depth := by
  rw [hSimple.tokens_eq, openBraces?_append, openBraces?_of_isPlain hSimple.isPlain]
  rfl

/-- A statement opens as many braces as it closes. -/
theorem Statement.openBraces?_tokens (s : Statement) (depth : Nat) :
    openBraces? depth s.tokens = some depth := by
  induction s using Statement.induction generalizing depth with
  | node name attributes => exact (simple_node name attributes).openBraces?_tokens depth
  | edge source target attributes =>
      exact (simple_edge source target attributes).openBraces?_tokens depth
  | setting a => exact (simple_setting a).openBraces?_tokens depth
  | cluster name body hBody =>
      have hHead : ∀ t ∈ [Token.word "subgraph", .word name], t.isPlain = true := by
        rw [List.forall_mem_cons, List.forall_mem_singleton]
        exact ⟨rfl, rfl⟩
      rw [tokens]
      exact openBraces?_block hHead (openBraces?_allTokens hBody) depth

theorem Diagram.balanced_tokens (d : Diagram) : Balanced d.tokens := by
  have hHead : ∀ t ∈ [Token.word "digraph", .word d.name], t.isPlain = true := by
    rw [List.forall_mem_cons, List.forall_mem_singleton]
    exact ⟨rfl, rfl⟩
  exact openBraces?_block hHead (openBraces?_allTokens fun s _ => s.openBraces?_tokens) 0

end Balance

end PacketFlow.Dot
