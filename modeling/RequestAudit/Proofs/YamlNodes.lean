import RequestAudit.Proofs.YamlLayout
import RequestAudit.Yaml.Node

/-!
# The nodes of written data

The tokens of data are read as the node that stands for the data. The grammar looks at one token
to know what comes next; behind a list without indentation of its own, no element may follow.
-/

namespace RequestAudit.Yaml

open Document

namespace Node

/-- The node that stands for data. -/
def ofDatum : Datum → Node
  | .flag b => scalar none none .plain (toString b)
  | .number n => scalar none none .plain (toString n)
  | .text s => scalar none none (styleOf s) s
  | .list ds => sequence none none (ds.map ofDatum)
  | .record fs => mapping none none (fs.map fun f => (scalar none none .plain f.1, ofDatum f.2))
decreasing_by
  · decreasing_tactic
  · have hmem := List.sizeOf_lt_of_mem ‹f ∈ fs›
    obtain ⟨k, d⟩ := f
    simp only [Prod.mk.sizeOf_spec] at hmem
    simp only [Datum.record.sizeOf_spec]
    omega

/-- The tokens are read up to `rest`, and nothing else changes. -/
def Parses {α : Type} (g : Grammar α) (ts : List Token) (a : α) (rest : List Token) : Prop :=
  ∀ handles anchors, g.run ⟨ts, handles, anchors⟩ = (a, ⟨rest, handles, anchors⟩)

section

variable {α β : Type} {g : Grammar α} {f : α → Grammar β} {a : α} {b : β} {t : Token}
  {ts mid rest : List Token} {n : Node} {block indentless : Bool} {fuel : ℕ}

theorem Parses.pure (a : α) (ts : List Token) : Parses (Pure.pure a) ts a ts := fun _ _ => rfl

theorem Parses.bind (hg : Parses g ts a mid) (hf : Parses (f a) mid b rest) :
    Parses (g >>= f) ts b rest := by
  intro handles anchors
  rw [StateT.run_bind, hg]
  exact hf handles anchors

theorem parses_next? (ts : List Token) : Parses next? ts ts.head? ts := fun _ _ => rfl

theorem parses_pass (t : Token) (ts : List Token) : Parses pass (t :: ts) () ts := fun _ _ => rfl

theorem parses_isNext (ends : List Token) (t : Token) (ts : List Token) :
    Parses (isNext ends) (t :: ts) (ends.contains t) (t :: ts) := fun _ _ => rfl

/-- A node without properties begins with the token. -/
def begins : Token → Bool
  | .scalar _ _ => true
  | .flowSequenceStart => true
  | .item => true
  | .sequenceStart => true
  | .mappingStart => true
  | _ => false

theorem parses_grammar (ht : begins t = true)
    (h : Parses (content block indentless none none fuel) (t :: ts) n rest) :
    Parses (grammar block indentless (fuel + 1)) (t :: ts) n rest := by
  rw [grammar]
  refine Parses.bind (parses_next? _) ?_
  cases t with
  | scalar | flowSequenceStart | item | sequenceStart | mappingStart =>
      exact Parses.bind (fun _ _ => rfl) h
  | _ => cases ht

theorem parses_grammarUnless {ends : List Token} (ht : ends.contains t = false)
    (h : Parses (grammar block indentless fuel) (t :: ts) n rest) :
    Parses (grammarUnless ends block indentless (fuel + 1)) (t :: ts) n rest := by
  rw [grammarUnless]
  refine Parses.bind (parses_isNext ends t ts) ?_
  rw [ht]
  exact h

theorem parses_scalar (style : Style) (s : String) (ts : List Token) :
    Parses (content block indentless none none (fuel + 1)) (.scalar style s :: ts)
      (scalar none none style s) ts := by
  rw [content]
  exact Parses.bind (parses_next? _) (Parses.bind (parses_pass _ _) fun _ _ => rfl)

/-! ## Sequences -/

theorem parses_emptyList (ts : List Token) :
    Parses (content block indentless none none (fuel + 2)) (.flowSequenceStart :: .flowSequenceEnd :: ts)
      (sequence none none []) ts := by
  rw [content]
  refine Parses.bind (parses_next? _) (Parses.bind (parses_pass _ _) ?_)
  refine Parses.bind (Parses.pure _ _) (Parses.bind (a := []) ?_ (Parses.pure _ _))
  rw [flowItems]
  exact Parses.bind (parses_next? _) (Parses.bind (parses_pass _ _) (Parses.pure _ _))

end

/-- An element of a list is read as its node. -/
def ParsesItem (d : Datum) : Prop :=
  ∀ fuel rest, 4 * (Token.ofItem d).length ≤ fuel →
    Parses (grammar true false fuel) (Token.ofItem d ++ rest) (ofDatum d) rest

/-- The value of a field is read as its node where no element of a list can follow it. -/
def ParsesField (d : Datum) : Prop :=
  ∀ fuel t rest, t ≠ Token.item → 4 * (Token.ofField d).length ≤ fuel →
    Parses (grammar true true fuel) (Token.ofField d ++ t :: rest) (ofDatum d) (t :: rest)

theorem ofItem_begins (d : Datum) :
    ∃ t ts, Token.ofItem d = t :: ts ∧ begins t = true ∧ t ≠ .item := by
  cases d with
  | flag | number | text | list | record => exact ⟨_, _, Token.ofItem.eq_def _, rfl, by simp⟩

theorem ofField_begins (d : Datum) : ∃ t ts, Token.ofField d = t :: ts ∧ begins t = true := by
  match d with
  | .flag _ | .number _ | .text _ | .list [] | .list (_ :: _) | .record _ => exact ⟨_, _, rfl, rfl⟩

theorem contains_eq_false {t : Token} {ends : List Token} (ht : begins t = true)
    (hends : ∀ e ∈ ends, begins e = false) : ends.contains t = false := by
  rw [← Bool.not_eq_true, List.contains_iff_mem]
  intro hmem
  rw [hends t hmem] at ht
  cases ht

theorem contains_item_eq_false {t : Token} {ends : List Token} (ht : begins t = true)
    (hitem : t ≠ .item) (hends : ∀ e ∈ ends, begins e = false) :
    (Token.item :: ends).contains t = false := by
  rw [List.contains_cons, contains_eq_false ht hends, Bool.or_false]
  exact beq_eq_false_iff_ne.mpr hitem

theorem parses_blockItems {ds : List Datum} (hds : ∀ d ∈ ds, ParsesItem d) {fuel : ℕ}
    (hfuel : 4 * ((Token.ofItems ds).length + 1) ≤ fuel) (rest : List Token) :
    Parses (blockItems fuel) (Token.ofItems ds ++ .blockEnd :: rest) (ds.map ofDatum) rest := by
  induction ds generalizing fuel with
  | nil =>
      obtain ⟨fuel, rfl⟩ : ∃ n, fuel = n + 1 := ⟨fuel - 1, by omega⟩
      rw [blockItems]
      exact Parses.bind (parses_next? _) (Parses.bind (parses_pass _ _) (Parses.pure _ _))
  | cons d ds ih =>
      obtain ⟨hd, hds⟩ := List.forall_mem_cons.mp hds
      rw [Token.ofItems, List.length_cons, List.length_append] at hfuel
      obtain ⟨fuel, rfl⟩ : ∃ n, fuel = n + 2 := ⟨fuel - 2, by omega⟩
      obtain ⟨t, ts, ht, hbegins, hitem⟩ := ofItem_begins d
      have hfirst := hd fuel (Token.ofItems ds ++ .blockEnd :: rest) (by omega)
      have hfuel' : 4 * ((Token.ofItems ds).length + 1) ≤ fuel + 1 := by omega
      have hrest := ih hds hfuel'
      rw [ht] at hfirst
      rw [Token.ofItems, List.cons_append, List.append_assoc, ht, blockItems]
      refine Parses.bind (parses_next? _) (Parses.bind (parses_pass _ _) ?_)
      refine Parses.bind (parses_grammarUnless (contains_item_eq_false hbegins hitem (by decide)) hfirst) ?_
      exact Parses.bind hrest (Parses.pure _ _)

theorem parses_indentlessItems {ds : List Datum} (hds : ∀ d ∈ ds, ParsesItem d) {fuel : ℕ}
    (hpos : 0 < fuel) (hfuel : 4 * (Token.ofItems ds).length ≤ fuel + 2) {t : Token}
    (ht : t ≠ .item) (rest : List Token) :
    Parses (indentlessItems fuel) (Token.ofItems ds ++ t :: rest) (ds.map ofDatum) (t :: rest) := by
  induction ds generalizing fuel with
  | nil =>
      obtain ⟨fuel, rfl⟩ : ∃ n, fuel = n + 1 := ⟨fuel - 1, by omega⟩
      rw [indentlessItems]
      refine Parses.bind (parses_next? _) ?_
      cases t with
      | item => exact absurd rfl ht
      | _ => exact Parses.pure _ _
  | cons d ds ih =>
      obtain ⟨hd, hds⟩ := List.forall_mem_cons.mp hds
      obtain ⟨u, us, hu, hbegins, hitem⟩ := ofItem_begins d
      have hlength : 0 < (Token.ofItem d).length := by
        rw [hu]
        exact Nat.succ_pos _
      rw [Token.ofItems, List.length_cons, List.length_append] at hfuel
      obtain ⟨fuel, rfl⟩ : ∃ n, fuel = n + 2 := ⟨fuel - 2, by omega⟩
      have hfirst := hd fuel (Token.ofItems ds ++ t :: rest) (by omega)
      have hrest := ih hds (by omega : 0 < fuel + 1) (by omega)
      rw [hu] at hfirst
      rw [Token.ofItems, List.cons_append, List.append_assoc, hu, indentlessItems]
      refine Parses.bind (parses_next? _) (Parses.bind (parses_pass _ _) ?_)
      refine Parses.bind (parses_grammarUnless (contains_item_eq_false hbegins hitem (by decide)) hfirst) ?_
      exact Parses.bind hrest (Parses.pure _ _)

/-! ## Mappings -/

theorem parses_key (k : String) (ts : List Token) {fuel : ℕ} (hfuel : 3 ≤ fuel) :
    Parses (grammarUnless [.key, .value, .blockEnd] true true fuel) (.scalar .plain k :: ts)
      (scalar none none .plain k) ts := by
  obtain ⟨fuel, rfl⟩ : ∃ n, fuel = n + 3 := ⟨fuel - 3, by omega⟩
  exact parses_grammarUnless rfl (parses_grammar rfl (parses_scalar _ _ _))

theorem parses_blockValue {d : Datum} (hd : ParsesField d) {t : Token} (ht : t ≠ .item)
    (rest : List Token) {fuel : ℕ} (hfuel : 4 * (Token.ofField d).length + 2 ≤ fuel) :
    Parses (blockValue fuel) (.value :: (Token.ofField d ++ t :: rest)) (ofDatum d) (t :: rest) := by
  obtain ⟨fuel, rfl⟩ : ∃ n, fuel = n + 2 := ⟨fuel - 2, by omega⟩
  obtain ⟨u, us, hu, hbegins⟩ := ofField_begins d
  have hvalue := hd fuel t rest ht (by omega)
  rw [hu] at hvalue ⊢
  rw [blockValue]
  refine Parses.bind (parses_next? _) (Parses.bind (parses_pass _ _) ?_)
  exact parses_grammarUnless (contains_eq_false hbegins (by decide)) hvalue

theorem parses_blockEntries {fs : List (String × Datum)} (hfs : ∀ f ∈ fs, ParsesField f.2) {fuel : ℕ}
    (hfuel : 4 * ((Token.ofFields fs).length + 1) ≤ fuel) (rest : List Token) :
    Parses (blockEntries fuel) (Token.ofFields fs ++ .blockEnd :: rest)
      (fs.map fun f => (scalar none none .plain f.1, ofDatum f.2)) rest := by
  induction fs generalizing fuel with
  | nil =>
      obtain ⟨fuel, rfl⟩ : ∃ n, fuel = n + 1 := ⟨fuel - 1, by omega⟩
      rw [blockEntries]
      exact Parses.bind (parses_next? _) (Parses.bind (parses_pass _ _) (Parses.pure _ _))
  | cons f fs ih =>
      obtain ⟨k, d⟩ := f
      obtain ⟨hd, hfs⟩ := List.forall_mem_cons.mp hfs
      rw [Token.ofFields, List.length_cons, List.length_cons, List.length_cons,
        List.length_append] at hfuel
      obtain ⟨fuel, rfl⟩ : ∃ n, fuel = n + 1 := ⟨fuel - 1, by omega⟩
      -- A key or the end follows, so that a list without indentation goes no further.
      have hfollows : ∃ t ts, Token.ofFields fs ++ .blockEnd :: rest = t :: ts ∧ t ≠ .item := by
        cases fs with
        | nil => exact ⟨_, _, rfl, by simp⟩
        | cons f fs => exact ⟨_, _, rfl, by simp⟩
      obtain ⟨t, ts, hts, ht⟩ := hfollows
      have hfuel' : 4 * (Token.ofField d).length + 2 ≤ fuel := by omega
      have hrest := ih hfs (by omega : _ ≤ fuel)
      have hvalue := parses_blockValue hd ht ts hfuel'
      rw [← hts] at hvalue
      rw [Token.ofFields, List.cons_append, List.cons_append, List.cons_append, List.append_assoc,
        blockEntries]
      refine Parses.bind (parses_next? _) (Parses.bind (parses_pass _ _) ?_)
      refine Parses.bind (parses_key k _ (by omega)) (Parses.bind hvalue ?_)
      exact Parses.bind hrest (Parses.pure _ _)

/-! ## Data -/

theorem parses_sequence {ds : List Datum} (hds : ∀ d ∈ ds, ParsesItem d) : ParsesItem (.list ds) := by
  intro fuel rest hfuel
  rw [Token.ofItem, List.length_cons, List.length_append] at hfuel
  obtain ⟨fuel, rfl⟩ : ∃ n, fuel = n + 2 := ⟨fuel - 2, by omega⟩
  rw [Token.ofItem, List.cons_append, List.append_assoc]
  refine parses_grammar rfl ?_
  rw [content, ofDatum]
  refine Parses.bind (parses_next? _) (Parses.bind (parses_pass _ _) ?_)
  have hitems := parses_blockItems hds (by simp at hfuel; omega : _ ≤ fuel) rest
  exact Parses.bind (Parses.pure _ _) (Parses.bind hitems (Parses.pure _ _))

theorem parses_indentless {ds : List Datum} (hds : ∀ d ∈ ds, ParsesItem d) :
    ParsesField (.list ds) := by
  intro fuel t rest ht hfuel
  cases ds with
  | nil =>
      obtain ⟨fuel, rfl⟩ : ∃ n, fuel = n + 3 := ⟨fuel - 3, by simp [Token.ofField] at hfuel; omega⟩
      rw [ofDatum]
      exact parses_grammar rfl (parses_emptyList _)
  | cons d ds =>
      rw [Token.ofField] at hfuel ⊢
      have hlength : 0 < (Token.ofItems (d :: ds)).length := by
        rw [Token.ofItems]
        exact Nat.succ_pos _
      obtain ⟨fuel, rfl⟩ : ∃ n, fuel = n + 2 := ⟨fuel - 2, by omega⟩
      have hitems := parses_indentlessItems hds (by omega : 0 < fuel) (by omega) ht rest
      rw [ofDatum]
      refine parses_grammar rfl ?_
      rw [content]
      exact Parses.bind (parses_next? _) (Parses.bind (Parses.pure _ _) (Parses.bind hitems (Parses.pure _ _)))

theorem parses_mapping {fs : List (String × Datum)} (hfs : ∀ f ∈ fs, ParsesField f.2)
    (indentless : Bool) {fuel : ℕ} (hfuel : 4 * ((Token.ofFields fs).length + 2) ≤ fuel)
    (rest : List Token) :
    Parses (grammar true indentless fuel)
      (.mappingStart :: (Token.ofFields fs ++ [.blockEnd]) ++ rest) (ofDatum (.record fs)) rest := by
  obtain ⟨fuel, rfl⟩ : ∃ n, fuel = n + 2 := ⟨fuel - 2, by omega⟩
  have hentries := parses_blockEntries hfs (by omega : _ ≤ fuel) rest
  rw [List.cons_append, List.append_assoc, ofDatum]
  refine parses_grammar rfl ?_
  rw [content]
  cases indentless with
  | false | true =>
      refine Parses.bind (parses_next? _) (Parses.bind (parses_pass _ _) ?_)
      exact Parses.bind (Parses.pure _ _) (Parses.bind hentries (Parses.pure _ _))

theorem parses_word {d : Datum} {style : Style} {s : String}
    (hfield : Token.ofField d = [.scalar style s]) (hitem : Token.ofItem d = [.scalar style s])
    (hnode : ofDatum d = scalar none none style s) : ParsesField d ∧ ParsesItem d := by
  constructor
  · intro fuel t rest _ hfuel
    rw [hfield, List.length_singleton] at hfuel
    obtain ⟨fuel, rfl⟩ : ∃ n, fuel = n + 2 := ⟨fuel - 2, by omega⟩
    rw [hfield, hnode]
    exact parses_grammar rfl (parses_scalar _ _ _)
  · intro fuel rest hfuel
    rw [hitem, List.length_singleton] at hfuel
    obtain ⟨fuel, rfl⟩ : ∃ n, fuel = n + 2 := ⟨fuel - 2, by omega⟩
    rw [hitem, hnode]
    exact parses_grammar rfl (parses_scalar _ _ _)

theorem parses_of_fits {d : Datum} (h : Fits d) : ParsesField d ∧ ParsesItem d := by
  induction h with
  | flag b =>
      exact parses_word (Token.ofField.eq_def _) (Token.ofItem.eq_def _) (ofDatum.eq_def _)
  | text s =>
      exact parses_word (Token.ofField.eq_def _) (Token.ofItem.eq_def _) (ofDatum.eq_def _)
  | list _ _ ih =>
      have hitems : ∀ d ∈ _, ParsesItem d := fun d hd => (ih d hd).2
      exact ⟨parses_indentless hitems, parses_sequence hitems⟩
  | @record fs _ _ _ ih =>
      have hfields : ∀ f ∈ fs, ParsesField f.2 := fun f hf => (ih f hf).1
      constructor
      · intro fuel t rest _ hfuel
        rw [Token.ofField, List.length_cons, List.length_append] at hfuel
        rw [Token.ofField]
        exact parses_mapping hfields true (by simp at hfuel; omega) _
      · intro fuel rest hfuel
        rw [Token.ofItem, List.length_cons, List.length_append] at hfuel
        rw [Token.ofItem]
        exact parses_mapping hfields false (by simp at hfuel; omega) _

end Node

/-! ## Documents -/

namespace Tree

theorem ofTokens_of_parses {t : Token} {ts : List Token} {n : Node} (ht : Node.begins t = true)
    (h : Node.Parses (Node.grammar true false (8 * (t :: ts).length + 8)) (t :: ts) n [.textEnd]) :
    ofTokens (t :: ts) = ⟨n, true⟩ := by
  have hcontent : ofTokens (t :: ts) = ofContent handles false (t :: ts) := by
    cases t with
    | scalar | flowSequenceStart | item | sequenceStart | mappingStart => rfl
    | _ => cases ht
  rw [hcontent]
  unfold ofContent
  simp only [Bool.false_and, Bool.false_eq_true, if_false]
  rw [h]
  rfl

/-- A written list or record reads as its node, and nothing follows. -/
theorem ofText_render {d : Datum} (h : Fits d) (hd : (∃ ds, d = .list ds) ∨ ∃ fs, d = .record fs) :
    ofText (render d) = ⟨Node.ofDatum d, true⟩ := by
  have htokens : Token.ofText (render d).toList = Token.ofDocument d ++ [.textEnd] := by
    rw [render, String.toList_ofList]
    rcases hd with ⟨ds, rfl⟩ | ⟨fs, rfl⟩
    · exact Token.ofText_list h
    · exact Token.ofText_record h
  rw [ofText, htokens]
  by_cases hnil : d = .list []
  · subst hnil
    rw [Node.ofDatum]
    exact ofTokens_of_parses rfl (Node.parses_grammar rfl (Node.parses_emptyList _))
  · have hdocument : Token.ofDocument d = Token.ofItem d := by
      rcases hd with ⟨ds, rfl⟩ | ⟨fs, rfl⟩
      · cases ds with
        | nil => exact absurd rfl hnil
        | cons d ds => rfl
      · rfl
    obtain ⟨t, ts, ht, hbegins, -⟩ := Node.ofItem_begins d
    have hparses := (Node.parses_of_fits h).2 (8 * (t :: (ts ++ [Token.textEnd])).length + 8)
      [.textEnd] (by rw [ht]; simp only [List.length_cons, List.length_append]; omega)
    rw [ht, List.cons_append] at hparses
    rw [hdocument, ht, List.cons_append]
    exact ofTokens_of_parses hbegins hparses

end Tree

end RequestAudit.Yaml
