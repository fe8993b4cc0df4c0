import RequestAudit.Proofs.ShownData
import RequestAudit.Proofs.YamlNodes
import RequestAudit.Yaml.Places

/-!
# Written YAML as a source of data

The nodes of written data answer every question as the data do: no text that would read as the
null is written plain, and nothing has a tag or an anchor.
-/

namespace RequestAudit.Yaml

open Document

theorem not_isNull_of_plain {s : String} (h : styleOf s = .plain) :
    (s.isEmpty || isNull s) = false := by
  have hambiguous : Written.isAmbiguous s = false := by
    unfold styleOf at h
    split at h
    · split at h <;> cases h
    · split at h
      · next hplain =>
          rw [Bool.and_eq_true, Bool.not_eq_true'] at hplain
          exact hplain.1
      · cases h
  have hnull : ∀ t ∈ ["", "null", "Null", "NULL", "~"], Written.isAmbiguous t = true := by decide
  rw [← Bool.not_eq_true, Bool.or_eq_true, String.isEmpty_iff, isNull, List.contains_iff_mem]
  intro hs
  have hmem : s ∈ ["", "null", "Null", "NULL", "~"] := List.mem_cons.mpr hs
  rw [hnull s hmem] at hambiguous
  cases hambiguous

theorem flag?_toString (b : Bool) : flag? (toString b) = some b := by
  cases b <;> decide

theorem follow_of_ofDatum {p : Place} {d : Datum} (h : p.node = Node.ofDatum d) :
    p.follow = pure p := by
  cases d with
  | flag | number | text | list | record =>
      rw [Node.ofDatum] at h
      simp only [Place.follow, h]

/-- A place shows data by their node. -/
def ShowsNode (p : Place) (d : Datum) : Prop := Fits d ∧ p.node = Node.ofDatum d

theorem showsNode_itemsFrom (p : Place) {ds : List Datum} (hds : ∀ d ∈ ds, Fits d) (i : ℕ) :
    List.Forall₂ ShowsNode (p.itemsFrom i (ds.map Node.ofDatum)) ds := by
  induction ds generalizing i with
  | nil => exact .nil
  | cons d ds ih =>
      obtain ⟨hd, hds⟩ := List.forall_mem_cons.mp hds
      exact .cons ⟨hd, rfl⟩ (ih hds (i + 1))

theorem optionalOf_of_fits {p : Place} {d : Datum} (h : ShowsNode p d) :
    optionalOf p = pure (some p) := by
  obtain ⟨hfits, hnode⟩ := h
  have hfollow := follow_of_ofDatum hnode
  cases hfits with
  | flag b =>
      have hnull : ((toString b).isEmpty || isNull (toString b)) = false := by cases b <;> decide
      rw [Node.ofDatum] at hnode
      simp only [optionalOf, hfollow, pure_bind, hnode, hnull, Bool.false_eq_true, if_false]
  | text s =>
      rw [Node.ofDatum] at hnode
      cases hstyle : styleOf s with
      | plain =>
          simp only [optionalOf, hfollow, pure_bind, hnode, hstyle, not_isNull_of_plain hstyle,
            Bool.false_eq_true, if_false]
      | literal | other => simp only [optionalOf, hfollow, pure_bind, hnode, hstyle]
  | list | record =>
      rw [Node.ofDatum] at hnode
      simp only [optionalOf, hfollow, pure_bind, hnode]

instance : ShowingSource Place Reading where
  Shows := ShowsNode
  follow h := follow_of_ofDatum h.2
  text {p s} h _ := by
    obtain ⟨-, hnode⟩ := h
    have hfollow := follow_of_ofDatum hnode
    rw [Node.ofDatum] at hnode
    simp only [Source.text, textOf, hfollow, pure_bind, hnode]
  flag {p b} h := by
    obtain ⟨-, hnode⟩ := h
    have hfollow := follow_of_ofDatum hnode
    rw [Node.ofDatum] at hnode
    simp only [Source.flag, flagOf, hfollow, pure_bind, hnode, flag?_toString]
    rfl
  optional := optionalOf_of_fits
  items {p ds} h := by
    obtain ⟨hfits, hnode⟩ := h
    have hfollow := follow_of_ofDatum hnode
    rw [Node.ofDatum] at hnode
    cases hfits with
    | list hds _ =>
        refine ⟨p.itemsFrom 0 (ds.map Node.ofDatum), ?_, showsNode_itemsFrom p hds 0⟩
        simp only [Source.items, itemsOf, hfollow, pure_bind, hnode]
  choice {p s} h names hs := by
    obtain ⟨-, hnode⟩ := h
    have hfollow := follow_of_ofDatum hnode
    rw [Node.ofDatum] at hnode
    simp only [Source.choice, choiceOf, hfollow, pure_bind, hnode, tagName?, Option.map_none,
      List.contains_iff_mem.mpr hs, if_true]
  layout {p fs} h _ := by
    obtain ⟨hfits, hnode⟩ := h
    rw [Node.ofDatum] at hnode
    refine ⟨fs.map fun f => (⟨.scalar none none .plain f.1, p.path?, p.around?⟩,
      p.value (.scalar none none .plain f.1) (Node.ofDatum f.2)), ?_, ?_⟩
    · simp only [Source.layout, layoutOf, hnode, List.map_map]
      rfl
    · cases hfits with
      | record _ _ hfs =>
          rw [List.forall₂_map_left_iff, List.forall₂_same]
          exact fun f hf => ⟨rfl, hfs f hf, rfl⟩

/-- What reads back from a list or a record reads back from its text. -/
theorem decodeText_render {α : Type} {read : Place → Reading α} {d : Datum} {a : α}
    (hread : Reads read d a) (h : Fits d) (hd : (∃ ds, d = .list ds) ∨ ∃ fs, d = .record fs) :
    decodeText read (render d) = .ok a := by
  simp only [decodeText, Tree.ofText_render h hd]
  rw [hread ⟨Node.ofDatum d, none, none⟩ ⟨h, rfl⟩]
  rfl

end RequestAudit.Yaml
