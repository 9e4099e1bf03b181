import DdlGraph.Graph.Basic
import DdlGraph.Text.Digest

/-!
# Keys of edges

An edge is the same as before if it joins the same columns. Its id is made from its key, and its
style comes from the edge before with that key, or from the one in the other direction.

* `key_toEdge`: an edge that is made has the key of its candidate;
* `reconcileAfter_keys`: the edges that are made have the candidates' keys, each once.
-/

namespace DdlGraph

/-- The two ends of an edge as one text. -/
def edgeKey (source sourceHandle target targetHandle : String) : String :=
  source ++ "|" ++ sourceHandle ++ "|" ++ target ++ "|" ++ targetHandle

/-- The id of an edge, which depends on its key only. -/
def edgeId (key : String) : String :=
  "edge-" ++ Text.shortDigest key

/-- The key of an edge, whatever the form of its handles. -/
def Edge.key (e : Edge) : String :=
  edgeKey e.source (sourceHandleFor e.sourceColumn) e.target (targetHandleFor e.targetColumn)

/-- An edge that a text asks for. -/
structure Link where
  source : String
  sourceColumn : String
  target : String
  targetColumn : String
  cardinality : Cardinality
  enumLink : Bool := false
deriving DecidableEq

namespace Link

def key (l : Link) : String :=
  edgeKey l.source (sourceHandleFor l.sourceColumn) l.target (targetHandleFor l.targetColumn)

/-- The key of the same link in the other direction. -/
def reverseKey (l : Link) : String :=
  edgeKey l.target (sourceHandleFor l.targetColumn) l.source (targetHandleFor l.sourceColumn)

/-- The style without an edge before. -/
def freshStyle (l : Link) : EdgeStyle :=
  if l.enumLink then .enumLink else {}

/-- The edge for a link, with the style that `styles` has for its key or its reverse. -/
def toEdge (styles : List (String × EdgeStyle)) (l : Link) : Edge where
  id := edgeId l.key
  source := l.source
  sourceHandle := sourceHandleFor l.sourceColumn
  target := l.target
  targetHandle := targetHandleFor l.targetColumn
  cardinality := l.cardinality
  enumLink := l.enumLink
  style := ((styles.lookup l.key).or (styles.lookup l.reverseKey)).getD l.freshStyle

theorem key_toEdge (styles : List (String × EdgeStyle)) (l : Link) :
    (l.toEdge styles).key = l.key := by
  simp [Edge.key, toEdge, key, Edge.sourceColumn, Edge.targetColumn, handleColumn_sourceHandleFor,
    handleColumn_targetHandleFor]

end Link

/-- Styles by key. A look-up finds the last edge of a key. -/
def stylesByKey (edges : List Edge) : List (String × EdgeStyle) :=
  edges.reverse.map fun e => (e.key, e.style)

/-- Edges for the links whose key is not in `seen`, one for each key. -/
def reconcileAfter (styles : List (String × EdgeStyle)) (seen : List String) :
    List Link → List Edge
  | [] => []
  | l :: rest =>
    if seen.contains l.key then reconcileAfter styles seen rest
    else l.toEdge styles :: reconcileAfter styles (l.key :: seen) rest

/-- **Edges for links**: one for each key, with the styles of the edges before. -/
def reconcileEdges (previous : List Edge) (links : List Link) : List Edge :=
  reconcileAfter (stylesByKey previous) [] links

theorem reconcileAfter_keys (styles : List (String × EdgeStyle)) (seen : List String)
    (links : List Link) :
    ((reconcileAfter styles seen links).map Edge.key).Nodup ∧
      ∀ k, k ∈ (reconcileAfter styles seen links).map Edge.key ↔
        k ∈ links.map Link.key ∧ k ∉ seen := by
  induction links generalizing seen with
  | nil => simp [reconcileAfter]
  | cons l rest ih =>
    unfold reconcileAfter
    split
    · rename_i hs
      obtain ⟨nodup, mem⟩ := ih seen
      refine ⟨nodup, fun k => ?_⟩
      rw [mem, List.map_cons, List.mem_cons]
      constructor
      · exact fun h => ⟨.inr h.1, h.2⟩
      · rintro ⟨rfl | h, hn⟩
        · exact absurd (by simpa using hs) hn
        · exact ⟨h, hn⟩
    · rename_i hs
      obtain ⟨nodup, mem⟩ := ih (l.key :: seen)
      simp only [List.map_cons, Link.key_toEdge, List.nodup_cons, List.mem_cons]
      refine ⟨⟨fun h => ?_, nodup⟩, fun k => ?_⟩
      · exact ((mem _).1 h).2 (by simp)
      · rw [mem, List.mem_cons, not_or]
        constructor
        · rintro (rfl | ⟨h, -, hn⟩)
          · exact ⟨.inl rfl, by simpa using hs⟩
          · exact ⟨.inr h, hn⟩
        · rintro ⟨rfl | h, hn⟩
          · exact .inl rfl
          · by_cases hk : k = l.key
            · exact .inl hk
            · exact .inr ⟨h, hk, hn⟩

end DdlGraph
