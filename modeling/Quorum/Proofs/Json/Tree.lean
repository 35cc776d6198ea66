import Mathlib.Data.List.Chain
import Quorum.Json.Tree
import Quorum.Proofs.Json.Token

namespace Quorum.Json

/-- Tokens that may follow a number. -/
def Follows (tokens : List Token) : Prop :=
  tokens.IsChain Token.Apart ∧ ∀ token ∈ tokens.head?, token.isNumber = false

theorem follows_nil : Follows [] := ⟨.nil, fun _ hmem => by cases hmem⟩

/-- A token stands apart from what may follow a number. -/
theorem isChain_cons_of_follows {rest : List Token} (h : Follows rest) (token : Token) :
    (token :: rest).IsChain Token.Apart :=
  List.isChain_cons.mpr ⟨fun next hmem => .inr (h.2 next hmem), h.1⟩

/-- What does not start with a number may follow one. -/
theorem follows_cons {token : Token} (h : token.isNumber = false) {rest : List Token}
    (hrest : rest.IsChain Token.Apart) : Follows (token :: rest) := by
  refine ⟨List.isChain_cons.mpr ⟨fun _ _ => .inl h, hrest⟩, fun other hmem => ?_⟩
  cases hmem
  exact h

mutual

/-- The tokens of a document stand apart, whatever may follow a number comes after them. -/
theorem isChain_tokens (document : Json) {rest : List Token} (h : Follows rest) :
    (document.tokens ++ rest).IsChain Token.Apart :=
  match document with
  | .null | .bool _ | .number _ | .text _ => isChain_cons_of_follows h _
  | .array items => (follows_cons rfl (isChain_itemTokens items h)).1
  | .object members => (follows_cons rfl (isChain_memberTokens members h)).1

/-- The tokens of items stand apart. -/
theorem isChain_itemTokens (items : List Json) {rest : List Token} (h : Follows rest) :
    (itemTokens items ++ rest).IsChain Token.Apart :=
  match items with
  | [] => (follows_cons rfl h.1).1
  | [item] => by
    rw [itemTokens, List.append_assoc]
    exact isChain_tokens item (follows_cons rfl h.1)
  | item :: next :: others => by
    rw [itemTokens, List.append_assoc, List.cons_append]
    · exact isChain_tokens item (follows_cons rfl (isChain_itemTokens (next :: others) h))
    · simp

/-- The tokens of members stand apart. -/
theorem isChain_memberTokens (members : List (Written × Json)) {rest : List Token}
    (h : Follows rest) : (memberTokens members ++ rest).IsChain Token.Apart :=
  match members with
  | [] => (follows_cons rfl h.1).1
  | [(name, content)] => by
    rw [memberTokens, List.cons_append, List.cons_append, List.append_assoc]
    exact (follows_cons rfl (follows_cons rfl (isChain_tokens content (follows_cons rfl h.1))).1).1
  | (name, content) :: next :: others => by
    rw [memberTokens, List.cons_append, List.cons_append, List.append_assoc, List.cons_append]
    · have hothers := isChain_memberTokens (next :: others) h
      exact (follows_cons rfl
        (follows_cons rfl (isChain_tokens content (follows_cons rfl hothers))).1).1
    · simp

end

open Reading

/-- Where the end of an array may come as well, a document is read as a value. -/
theorem foldlM_firstItem {items : List Json} (h : items ≠ []) (frames : List Frame)
    (members : List (Written × Json)) (rest : List Token) :
    (itemTokens items ++ rest).foldlM step? { frames, members, expected := .firstItem } =
      (itemTokens items ++ rest).foldlM step? { frames, members, expected := .value } := by
  match items with
  | [item] => cases item <;> rfl
  | item :: next :: others => cases item <;> rfl

/-- The first member of an object is read as any other. -/
theorem foldlM_firstName {members : List (Written × Json)} (h : members ≠ [])
    (frames : List Frame) (rest : List Token) :
    (memberTokens members ++ rest).foldlM step? { frames, expected := .firstName } =
      (memberTokens members ++ rest).foldlM step? { frames, expected := .name } := by
  match members with
  | [member] => rfl
  | member :: next :: others => rfl

mutual

/-- The reader takes the tokens of a document as its value, by induction on the document. -/
theorem foldlM_tokens (document : Json) (frames : List Frame) (members : List (Written × Json))
    (rest : List Token) :
    (document.tokens ++ rest).foldlM step? { frames, members, expected := .value } =
      rest.foldlM step? (give frames document) :=
  match document with
  | .null | .bool _ | .number _ | .text _ => rfl
  | .array items => by
    by_cases hnone : items = []
    · rw [hnone]
      rfl
    · have hitems := foldlM_itemTokens items hnone frames [] [] rest
      exact (foldlM_firstItem hnone _ [] rest).trans hitems
  | .object members => by
    by_cases hnone : members = []
    · rw [hnone]
      rfl
    · have hmembers := foldlM_memberTokens members hnone frames [] rest
      exact (foldlM_firstName hnone _ rest).trans hmembers

/-- The reader takes the tokens of items into the innermost array. -/
theorem foldlM_itemTokens (items : List Json) (h : items ≠ []) (frames : List Frame)
    (read : List Json) (members : List (Written × Json)) (rest : List Token) :
    (itemTokens items ++ rest).foldlM step?
        { frames := .array read :: frames, members, expected := .value } =
      rest.foldlM step? (give frames (.array (read.reverse ++ items))) :=
  match items with
  | [item] => by
    have hitem := foldlM_tokens item (.array read :: frames) members (.closeArray :: rest)
    rw [itemTokens, List.append_assoc, ← List.reverse_cons]
    exact hitem
  | item :: next :: others => by
    have hitem := foldlM_tokens item (.array read :: frames) members
      (.comma :: (itemTokens (next :: others) ++ rest))
    have hothers := foldlM_itemTokens (next :: others) (by simp) frames (item :: read) [] rest
    rw [List.reverse_cons, List.append_assoc] at hothers
    rw [itemTokens, List.append_assoc]
    · exact hitem.trans hothers
    · simp

/-- The reader takes the tokens of members into the innermost object. -/
theorem foldlM_memberTokens (members : List (Written × Json)) (h : members ≠ [])
    (frames : List Frame) (read : List (Written × Json)) (rest : List Token) :
    (memberTokens members ++ rest).foldlM step? { frames, members := read, expected := .name } =
      rest.foldlM step? (give frames (.object (read.reverse ++ members))) :=
  match members with
  | [(name, content)] => by
    have hcontent := foldlM_tokens content (.object read name :: frames) [] (.closeObject :: rest)
    rw [memberTokens, List.cons_append, List.cons_append, List.append_assoc, ← List.reverse_cons]
    exact hcontent
  | (name, content) :: next :: others => by
    have hcontent := foldlM_tokens content (.object read name :: frames) []
      (.comma :: (memberTokens (next :: others) ++ rest))
    have hothers := foldlM_memberTokens (next :: others) (by simp) frames
      ((name, content) :: read) rest
    rw [List.reverse_cons, List.append_assoc] at hothers
    rw [memberTokens, List.cons_append, List.cons_append, List.append_assoc]
    · exact hcontent.trans hothers
    · simp

end

/-- A document is read back from its tokens. -/
theorem ofTokens?_tokens (document : Json) : ofTokens? document.tokens = some document := by
  have hread := foldlM_tokens document [] [] []
  rw [List.append_nil] at hread
  rw [ofTokens?, hread]
  rfl

/-- A document whose strings can be written. -/
def Writable (document : Json) : Prop := ∀ token ∈ document.tokens, token.Writable

/-- What a document is written as is read back. -/
theorem parse?_toText {document : Json} (h : document.Writable) :
    parse? document.toText = some document := by
  have hapart := isChain_tokens document follows_nil
  rw [List.append_nil] at hapart
  rw [parse?, toText, tokens?_ofList_render h hapart]
  exact ofTokens?_tokens document

end Quorum.Json
