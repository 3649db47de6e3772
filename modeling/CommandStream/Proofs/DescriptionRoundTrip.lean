import CommandStream.Description
import CommandStream.Proofs.JsonTokens

/-! # Reading a network back from its description

The tokens of a value are read as that value, whatever is open around it, so the text of a plain
value is read back. A network is described by plain values, each read back by its form.
-/

namespace CommandStream

namespace Json

namespace Parse

/-- A value may begin, and belongs into the innermost of the frames. -/
def Awaits (p : Parse) (frames : List Frame) : Prop :=
  ∀ t, t ≠ .closeArray → p.step t = enter frames t

theorem awaits_value (frames : List Frame) : (Parse.value frames).Awaits frames :=
  fun _ _ => rfl

theorem awaits_firstItem (frames : List Frame) :
    (Parse.firstItem frames).Awaits (.array [] :: frames) := by
  intro t ht
  cases t with
  | closeArray => exact absurd rfl ht
  | _ => rfl

end Parse

open Parse

def Parses (ts : List Token) (v : Json) : Prop :=
  ∀ p frames, p.Awaits frames → ts.foldlM Parse.step p = some (complete v frames)

theorem parses_single {t : Token} {v : Json} (ht : t ≠ .closeArray)
    (h : ∀ frames, enter frames t = some (complete v frames)) : Parses [t] v := by
  intro p frames hp
  exact foldlM_cons_of_eq_some ((hp t ht).trans (h frames)) []

theorem foldlM_itemTokens {items : List Json} (h : ∀ v ∈ items, Parses (tokens v) v)
    (before : List Json) (frames : List Frame) :
    (itemTokens items ++ [Token.closeArray]).foldlM Parse.step (.separator (.array before) frames) =
      some (complete (.array (before.reverse ++ items)) frames) := by
  induction items generalizing before with
  | nil =>
    rw [List.append_nil]
    rfl
  | cons v rest ih =>
    rw [List.forall_mem_cons] at h
    have hcomma : Parse.step (.separator (.array before) frames) .comma =
        some (.value (.array before :: frames)) := rfl
    rw [itemTokens, List.cons_append, List.append_assoc, foldlM_cons_of_eq_some hcomma,
      foldlM_append_of_eq_some (h.1 _ _ (awaits_value _)), complete, ih h.2, List.reverse_cons,
      List.append_assoc, List.singleton_append]

theorem foldlM_memberTokens {members : List (Option String × Json)}
    (h : ∀ m ∈ members, Parses (tokens m.2) m.2) (before : List (Option String × Json))
    (key : Option String) (frames : List Frame) :
    (memberTokens members ++ [Token.closeObject]).foldlM Parse.step
        (.separator (.object before key) frames) =
      some (complete (.object (before.reverse ++ members)) frames) := by
  induction members generalizing before key with
  | nil =>
    rw [List.append_nil]
    rfl
  | cons m rest ih =>
    rw [List.forall_mem_cons] at h
    have hkey : [Token.comma, .string m.1, .colon].foldlM Parse.step
        (.separator (.object before key) frames) =
          some (.value (.object before m.1 :: frames)) := rfl
    have htokens : memberTokens (m :: rest) ++ [.closeObject] =
        [Token.comma, .string m.1, .colon] ++
          (tokens m.2 ++ (memberTokens rest ++ [.closeObject])) := by
      simp [memberTokens]
    rw [htokens, foldlM_append_of_eq_some hkey,
      foldlM_append_of_eq_some (h.1 _ _ (awaits_value _)), complete, ih h.2, List.reverse_cons,
      List.append_assoc, List.singleton_append]

theorem parses_tokens {v : Json} (h : v.Plain) : Parses (tokens v) v := by
  induction h with
  | null => simpa [tokens] using parses_single (by decide) fun _ => rfl
  | bool b => simpa [tokens] using parses_single (by simp) fun _ => rfl
  | int n => simpa [tokens] using parses_single (by simp) fun _ => rfl
  | string text => simpa [tokens] using parses_single (by simp) fun _ => rfl
  | @array items _ ih =>
    intro p frames hp
    have hopen : p.step .openArray = some (.firstItem frames) := hp .openArray (by decide)
    cases items with
    | nil =>
      rw [tokens, foldlM_cons_of_eq_some hopen]
      rfl
    | cons v rest =>
      rw [List.forall_mem_cons] at ih
      rw [tokens, foldlM_cons_of_eq_some hopen, List.append_assoc,
        foldlM_append_of_eq_some (ih.1 _ _ (awaits_firstItem _)), complete,
        foldlM_itemTokens ih.2]
      rfl
  | @object members _ _ ih =>
    intro p frames hp
    have hopen : p.step .openObject = some (.firstKey frames) := hp .openObject (by decide)
    cases members with
    | nil =>
      rw [tokens, foldlM_cons_of_eq_some hopen]
      rfl
    | cons m rest =>
      rw [List.forall_mem_cons] at ih
      have hkey : [Token.openObject, .string m.1, .colon].foldlM Parse.step p =
          some (.value (.object [] m.1 :: frames)) := by
        rw [foldlM_cons_of_eq_some hopen]
        rfl
      have htokens : tokens (.object (m :: rest)) = [Token.openObject, .string m.1, .colon] ++
          (tokens m.2 ++ (memberTokens rest ++ [.closeObject])) := by
        simp [tokens]
      rw [htokens, foldlM_append_of_eq_some hkey,
        foldlM_append_of_eq_some (ih.1 _ _ (awaits_value _)), complete, foldlM_memberTokens ih.2]
      rfl

/-- The text of a plain value is read back. -/
theorem parse?_pretty {v : Json} (h : v.Plain) : parse? v.pretty = some v := by
  rw [parse?, pretty, (lexes_prettyAt h 0).tokens?_ofList, Option.bind_eq_bind, Option.bind_some,
    parses_tokens h _ _ (awaits_value [])]
  rfl

end Json

theorem Net.read_parse?_toDescription (net : Net) :
    (Json.parse? net.toDescription >>= Description.net.read) = some net := by
  rw [Net.toDescription, Json.parse?_pretty (Description.net.plain net), Option.bind_eq_bind,
    Option.bind_some, Description.net.read_write]

/-- Every network is read back from its description. -/
theorem Net.ofDescription_toDescription (net : Net) :
    Net.ofDescription net.toDescription = .ok net := by
  rw [Net.ofDescription, Net.read_parse?_toDescription]

end CommandStream
