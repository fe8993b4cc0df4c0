import Mathlib.Data.List.Basic
import Mathlib.Data.List.Nodup
import Mathlib.Data.List.Pairwise
import Mathlib.Data.List.Perm.Basic
import RequestAudit.Proofs.JsonText
import RequestAudit.Proofs.Results

/-!
# Data at hand as values

In a value at hand the entries of objects stand in the order of their keys, not in the order in
which they were written. A record whose fields set different parts of it is read the same in any
order of its entries, so whatever reads back from data reads back from the value that stands for
them.
-/

namespace RequestAudit

namespace Document.Datum

variable (name : String)

theorem names_always (d : Datum) : ((always name d).map Prod.fst).Sublist [name] := .refl _

theorem names_unlessEmpty {α : Type} (xs : List α) (g : List α → Datum) :
    ((unlessEmpty name xs g).map Prod.fst).Sublist [name] := by
  cases xs with
  | nil => exact List.nil_sublist _
  | cons x xs => exact .refl _

theorem names_ifSome {α : Type} (x : Option α) (g : α → Datum) :
    ((ifSome name x g).map Prod.fst).Sublist [name] := by
  cases x with
  | none => exact List.nil_sublist _
  | some a => exact .refl _

end Document.Datum

namespace Json

open Document

/-- Data whose numbers have 64 bits and whose records have no two fields of one name. -/
inductive Regular : Datum → Prop where
  | flag (b : Bool) : Regular (.flag b)
  | number {n : ℕ} (h : n ≤ wordMax) : Regular (.number n)
  | text (s : String) : Regular (.text s)
  | list {ds : List Datum} (h : ∀ d ∈ ds, Regular d) : Regular (.list ds)
  | record {fs : List (String × Datum)} (hnames : (fs.map Prod.fst).Nodup)
      (h : ∀ f ∈ fs, Regular f.2) : Regular (.record fs)

theorem regular_map {α : Type} {g : α → Datum} (xs : List α) (h : ∀ a, Regular (g a)) :
    Regular (.list (xs.map g)) :=
  .list (List.forall_mem_map.mpr fun a _ => h a)

theorem Regular.fits {d : Datum} (h : Regular d) : Fits d := by
  induction h with
  | flag b => exact .flag b
  | number h => exact .number h
  | text s => exact .text s
  | list _ ih => exact .list ih
  | record _ _ ih => exact .record ih

/-! ## Settling -/

theorem settledAll_eq (vs : List Json) : settledAll vs = vs.map settled := by
  induction vs with
  | nil => rfl
  | cons v vs ih => rw [settledAll, ih, List.map_cons]

theorem allWhole_of {vs : List Json} (h : ∀ v ∈ vs, v.isWhole = true) : allWhole vs = true := by
  induction vs with
  | nil => rfl
  | cons v vs ih =>
      obtain ⟨hv, hvs⟩ := List.forall_mem_cons.mp h
      rw [allWhole, hv, ih hvs]
      rfl

theorem entriesWhole_of {es : List (Json × Json)}
    (h : ∀ e ∈ es, ∃ k v, e = (string k, v) ∧ v.isWhole = true) : entriesWhole es = true := by
  induction es with
  | nil => rfl
  | cons e es ih =>
      obtain ⟨⟨k, v, rfl, hv⟩, hes⟩ := List.forall_mem_cons.mp h
      rw [entriesWhole, hv, ih hes]
      rfl

theorem perm_insertEntry {k : String} (v : Json) {es : List (Json × Json)}
    (h : ∀ e ∈ es, e.1 ≠ string k) : (insertEntry k v es).Perm ((string k, v) :: es) := by
  induction es with
  | nil => rfl
  | cons e es ih =>
      obtain ⟨he, hes⟩ := List.forall_mem_cons.mp h
      obtain ⟨key, x⟩ := e
      cases key with
      | string k' =>
          have hne : k ≠ k' := by
            rintro rfl
            exact he rfl
          rw [insertEntry, if_neg hne]
          split_ifs
          · rfl
          · exact ((ih hes).cons _).trans (.swap _ _ _)
      | _ => rfl

/-- The entries that stand for fields, each settled. -/
def settledFields (fs : List (String × Datum)) : List (Json × Json) :=
  fs.map fun f => (string f.1, (ofDatum f.2).settled)

/-- Settling orders the entries anew. -/
theorem perm_settledEntries {fs : List (String × Datum)} {done : List (Json × Json)}
    (hnames : (fs.map Prod.fst).Nodup) (hdone : ∀ e ∈ done, ∀ f ∈ fs, e.1 ≠ string f.1) :
    (settledEntries (fs.map fun f => (string f.1, ofDatum f.2)) done).Perm
      (done ++ settledFields fs) := by
  induction fs generalizing done with
  | nil =>
      rw [settledFields, List.map_nil, List.map_nil, settledEntries, List.append_nil]
  | cons f fs ih =>
      rw [List.map_cons, List.nodup_cons] at hnames
      obtain ⟨hf, hfs⟩ := hnames
      have hput := perm_insertEntry (ofDatum f.2).settled
        fun e he => hdone e he f List.mem_cons_self
      have hnew : ∀ e ∈ insertEntry f.1 (ofDatum f.2).settled done, ∀ g ∈ fs,
          e.1 ≠ string g.1 := by
        intro e he g hg
        rcases List.mem_cons.mp (hput.mem_iff.mp he) with rfl | he
        · intro heq
          rw [string.injEq] at heq
          exact hf (heq ▸ List.mem_map_of_mem hg)
        · exact hdone e he g (List.mem_cons_of_mem f hg)
      have hmiddle : ((string f.1, (ofDatum f.2).settled) :: done ++ settledFields fs).Perm
          (done ++ settledFields (f :: fs)) := List.perm_middle.symm
      rw [List.map_cons, settledEntries]
      exact (ih hfs hnew).trans ((hput.append_right _).trans hmiddle)

/-- A record settles to its fields in some order. -/
theorem settled_record {fs : List (String × Datum)} (hnames : (fs.map Prod.fst).Nodup) :
    ∃ es, (ofDatum (.record fs)).settled = object es ∧ es.Perm (settledFields fs) := by
  refine ⟨_, by rw [ofDatum, settled], ?_⟩
  have hperm := @perm_settledEntries fs [] hnames (by simp)
  rwa [List.nil_append] at hperm

theorem settled_list (ds : List Datum) :
    (ofDatum (.list ds)).settled = array (ds.map fun d => (ofDatum d).settled) := by
  rw [ofDatum, settled, settledAll_eq, List.map_map]
  rfl

theorem isWhole_settled {d : Datum} (h : Regular d) : (ofDatum d).settled.isWhole = true := by
  induction h with
  | list _ ih =>
      rw [settled_list, isWhole]
      exact allWhole_of (List.forall_mem_map.mpr ih)
  | record hnames _ ih =>
      obtain ⟨es, hes, hperm⟩ := settled_record hnames
      rw [hes, isWhole]
      apply entriesWhole_of
      intro e he
      obtain ⟨f, hf, rfl⟩ := List.mem_map.mp (hperm.mem_iff.mp he)
      exact ⟨f.1, _, rfl, ih f hf⟩
  | _ => simp [ofDatum, settled, isWhole]

/-! ## Readers that settling does not disturb -/

/-- The place of the value that stands for data, its entries as they are written. -/
def written (d : Datum) : Place := ⟨.value, ofDatum d⟩

/-- The place of the same value with its entries in order. -/
def inOrder (d : Datum) : Place := ⟨.value, (ofDatum d).settled⟩

/-- What is read of data as they are written is read of them in order. -/
def Respects {α : Type} (read : Place → Except Fault α) : Prop :=
  ∀ d, Regular d → ∀ a, read (written d) = .ok a → read (inOrder d) = .ok a

section Leaves

variable {α : Type} {read : Place → Except Fault α}

/-- Data without parts are in order as they are written. -/
theorem respects_of_refusal (hlist : ∀ ds a, read (written (.list ds)) ≠ .ok a)
    (hrecord : ∀ fs a, read (written (.record fs)) ≠ .ok a) : Respects read := by
  intro d _ a ha
  cases d with
  | list ds => exact absurd ha (hlist ds a)
  | record fs => exact absurd ha (hrecord fs a)
  | _ =>
      rw [written, ofDatum] at ha
      rw [inOrder, ofDatum]
      exact ha

theorem respects_text (expected : String) : Respects (Source.text expected) := by
  apply respects_of_refusal <;> intro parts s <;> rw [written, ofDatum] <;> exact nofun

theorem respects_flag : Respects Source.flag := by
  apply respects_of_refusal <;> intro parts b <;> rw [written, ofDatum] <;> exact nofun

theorem ofDatum_ne_null (d : Datum) : ofDatum d ≠ null := by
  cases d <;> rw [ofDatum] <;> exact nofun

theorem choiceOf_fields_ne_ok (names : List String) (fs : List (String × Datum)) (s : String) :
    choiceOf .value names (object (fs.map fun f => (string f.1, ofDatum f.2))) ≠ .ok s := by
  match fs with
  | [] => exact nofun
  | [(k, d)] =>
      intro h
      obtain ⟨name, -, hname⟩ := bind_eq_ok.mp h
      split at hname
      · next heq => exact ofDatum_ne_null d heq
      · cases hname
  | _ :: _ :: _ => exact nofun

/-- An object would name its choice by a key whose value is null, which no data are. -/
theorem respects_choice (names : List String) : Respects (Source.choice names) := by
  apply respects_of_refusal
  · intro ds s
    rw [written, ofDatum]
    exact nofun
  · intro fs s
    rw [written, ofDatum]
    exact choiceOf_fields_ne_ok names fs s

end Leaves

variable {α β : Type} {read : Place → Except Fault α}

theorem Respects.map (h : Respects read) (f : α → β) : Respects fun x => f <$> read x := by
  intro d hd b hb
  obtain ⟨a, ha, hfa⟩ := map_eq_ok.mp hb
  exact map_eq_ok.mpr ⟨a, h d hd a ha, hfa⟩

theorem Respects.mapM (h : Respects read) {ds : List Datum} (hds : ∀ d ∈ ds, Regular d)
    {as : List α} (has : (ds.map written).mapM read = .ok as) :
    (ds.map inOrder).mapM read = .ok as := by
  induction ds generalizing as with
  | nil => exact has
  | cons d ds ih =>
      obtain ⟨hd, hds⟩ := List.forall_mem_cons.mp hds
      rw [List.map_cons, List.mapM_cons] at has ⊢
      obtain ⟨b, hb, hrest⟩ := bind_eq_ok.mp has
      obtain ⟨bs, hbs, hcons⟩ := bind_eq_ok.mp hrest
      exact bind_eq_ok.mpr ⟨b, h d hd b hb, bind_eq_ok.mpr ⟨bs, ih hds hbs, hcons⟩⟩

theorem items_written (ds : List Datum) :
    (Source.items (written (.list ds)) : Except Fault (List Place)) = .ok (ds.map written) := by
  simp only [Source.items, written, ofDatum, List.map_map]
  rfl

theorem items_inOrder (ds : List Datum) :
    (Source.items (inOrder (.list ds)) : Except Fault (List Place)) = .ok (ds.map inOrder) := by
  simp only [Source.items, inOrder, settled_list, List.map_map]
  rfl

theorem Respects.list (h : Respects read) : Respects (readList read) := by
  intro d hd as has
  cases hd with
  | list hds =>
      rw [readList, items_written] at has
      rw [readList, items_inOrder]
      exact h.mapM hds has
  | _ =>
      rw [readList, written, ofDatum] at has
      cases has

theorem Respects.option (h : Respects read) : Respects (readOption read) := by
  intro d hd a ha
  have hwritten : (Source.optional (written d) : Except Fault (Option Place)) =
      .ok (some (written d)) := by
    unfold written
    cases d <;> rw [ofDatum] <;> rfl
  have hinOrder : (Source.optional (inOrder d) : Except Fault (Option Place)) =
      .ok (some (inOrder d)) := by
    unfold inOrder
    cases d <;> rw [ofDatum] <;> rfl
  rw [readOption, hwritten] at ha
  rw [readOption, hinOrder]
  exact h.map some d hd a ha

/-! ## Records -/

variable {R : Type}

/-- In whatever order two fields are read, the record comes out the same. -/
def Commutes (f g : Field Place (Except Fault) R) : Prop :=
  ∀ x y c d, f.read x = .ok c → g.read y = .ok d → ∀ r, c (d r) = d (c r)

instance : Std.Symm (Commutes (R := R)) where
  symm _ _ h x y c d hc hd r := (h y x d c hd hc r).symm

theorem commutes_field {name name' : String} {presence presence' : Presence}
    {read' : Place → Except Fault β} {set : α → R → R} {set' : β → R → R}
    (h : ∀ a b r, set a (set' b r) = set' b (set a r)) :
    Commutes (field name presence read set) (field name' presence' read' set') := by
  intro x y c d hc hd r
  obtain ⟨a, -, rfl⟩ := map_eq_ok.mp hc
  obtain ⟨b, -, rfl⟩ := map_eq_ok.mp hd
  exact h a b r

/-- Reading an entry adds its name to those given and changes the record, or passes over it. -/
inductive Takes (fields : List (Field Place (Except Fault) R)) :
    Place × Place → List String × R → List String × R → Prop where
  | passed {e : Place × Place} {n : String} {s : List String × R} (hkey : e.1.value = string n)
      (hfind : fields.find? (·.name == n) = none) (hwhole : e.2.value.isWhole = true) :
      Takes fields e s s
  | set {e : Place × Place} {n : String} {f : Field Place (Except Fault) R} {c : R → R}
      {given : List String} {r : R} (hkey : e.1.value = string n)
      (hfind : fields.find? (·.name == n) = some f) (hnew : n ∉ given)
      (hread : f.read e.2 = .ok c) : Takes fields e (given, r) (n :: given, c r)

variable {fields : List (Field Place (Except Fault) R)} {record : Place}

theorem key_eq_ok {k : Place} {n : String} :
    (Source.key record k : Except Fault String) = .ok n ↔ k.value = string n := by
  obtain ⟨o, v⟩ := k
  cases v with
  | string s => simp [Source.key]
  | _ => simp [Source.key]

theorem skip_eq_ok {x : Place} {u : Unit} :
    (Source.skip x : Except Fault Unit) = .ok u ↔ x.value.isWhole = true := by
  simp [Source.skip]

theorem readEntries_cons_eq_ok {e : Place × Place} {es : List (Place × Place)}
    {given : List String} {r : R} {q : R × List String} :
    Document.readEntries record fields (e :: es) given r = .ok q ↔
      ∃ s, Takes fields e (given, r) s ∧ Document.readEntries record fields es s.1 s.2 = .ok q := by
  obtain ⟨k, x⟩ := e
  rw [Document.readEntries, bind_eq_ok]
  constructor
  · rintro ⟨n, hkey, h⟩
    rw [key_eq_ok] at hkey
    cases hfind : fields.find? (·.name == n) with
    | none =>
        simp only [hfind] at h
        obtain ⟨u, hskip, h⟩ := bind_eq_ok.mp h
        exact ⟨(given, r), .passed hkey hfind (skip_eq_ok.mp hskip), h⟩
    | some f =>
        simp only [hfind] at h
        split_ifs at h with hgiven
        obtain ⟨c, hread, h⟩ := bind_eq_ok.mp h
        rw [List.contains_iff_mem] at hgiven
        exact ⟨(n :: given, c r), .set hkey hfind hgiven hread, h⟩
  · rintro ⟨s, htakes, h⟩
    cases htakes with
    | @passed n _ hkey hfind hwhole =>
        refine ⟨n, key_eq_ok.mpr hkey, ?_⟩
        simp only [hfind]
        exact bind_eq_ok.mpr ⟨(), skip_eq_ok.mpr hwhole, h⟩
    | @set n f c _ _ hkey hfind hnew hread =>
        refine ⟨n, key_eq_ok.mpr hkey, ?_⟩
        simp only [hfind]
        rw [if_neg (by rwa [List.contains_iff_mem])]
        exact bind_eq_ok.mpr ⟨c, hread, h⟩

/-- Only which names were given matters, not in which order. -/
theorem Takes.of_perm {e : Place × Place} {given given' : List String} {r : R}
    {s : List String × R} (h : Takes fields e (given, r) s) (hperm : given.Perm given') :
    ∃ named, Takes fields e (given', r) (named, s.2) ∧ s.1.Perm named := by
  cases h with
  | passed hkey hfind hwhole => exact ⟨given', .passed hkey hfind hwhole, hperm⟩
  | set hkey hfind hnew hread =>
      exact ⟨_, .set hkey hfind (hperm.mem_iff.not.mp hnew) hread, hperm.cons _⟩

theorem readEntries_of_perm_given {es : List (Place × Place)} {given given' named : List String}
    {r r' : R} (h : Document.readEntries record fields es given r = .ok (r', named))
    (hperm : given.Perm given') :
    ∃ named', Document.readEntries record fields es given' r = .ok (r', named') ∧
      named.Perm named' := by
  induction es generalizing given given' r with
  | nil =>
      cases h
      exact ⟨given', rfl, hperm⟩
  | cons e es ih =>
      obtain ⟨⟨between, m⟩, htakes, hrest⟩ := readEntries_cons_eq_ok.mp h
      obtain ⟨between', htakes', hbetween⟩ := htakes.of_perm hperm
      obtain ⟨named', hrest', hnamed⟩ := ih hrest hbetween
      exact ⟨named', readEntries_cons_eq_ok.mpr ⟨_, htakes', hrest'⟩, hnamed⟩

/-- Two entries next to each other may change places. -/
theorem Takes.swap (hfields : fields.Pairwise Commutes) {e e' : Place × Place}
    {s s₁ s₂ : List String × R} (h₁ : Takes fields e s s₁) (h₂ : Takes fields e' s₁ s₂) :
    ∃ s₁' named, Takes fields e' s s₁' ∧ Takes fields e s₁' (named, s₂.2) ∧ s₂.1.Perm named := by
  cases h₁ with
  | passed hkey hfind hwhole => exact ⟨s₂, s₂.1, h₂, .passed hkey hfind hwhole, .refl _⟩
  | @set n f c given r hkey hfind hnew hread =>
      cases h₂ with
      | passed hkey' hfind' hwhole' =>
          exact ⟨_, _, .passed hkey' hfind' hwhole', .set hkey hfind hnew hread, .refl _⟩
      | @set n' f' c' _ _ hkey' hfind' hnew' hread' =>
          rw [List.mem_cons, not_or] at hnew'
          obtain ⟨hne, hnew'⟩ := hnew'
          have hfields' : f ≠ f' := by
            rintro rfl
            have hn := List.find?_some hfind
            have hn' := List.find?_some hfind'
            simp only [beq_iff_eq] at hn hn'
            exact hne (hn'.symm.trans hn)
          have hcommute : Commutes f f' := by
            exact hfields.forall (List.mem_of_find?_eq_some hfind)
              (List.mem_of_find?_eq_some hfind') hfields'
          have hgiven : n ∉ n' :: given := by
            rw [List.mem_cons, not_or]
            exact ⟨Ne.symm hne, hnew⟩
          have hchange : c' (c r) = c (c' r) := (hcommute _ _ c c' hread hread' r).symm
          refine ⟨(n' :: given, c' r), n :: n' :: given, .set hkey' hfind' hnew' hread', ?_,
            .swap _ _ _⟩
          rw [hchange]
          exact .set hkey hfind hgiven hread

/-- The order of the entries does not matter. -/
theorem readEntries_of_perm (hfields : fields.Pairwise Commutes)
    {es es' : List (Place × Place)} (hperm : es.Perm es') {given named : List String} {r r' : R}
    (h : Document.readEntries record fields es given r = .ok (r', named)) :
    ∃ named', Document.readEntries record fields es' given r = .ok (r', named') ∧
      named.Perm named' := by
  induction hperm generalizing given r named with
  | nil => exact ⟨named, h, .refl _⟩
  | cons e _ ih =>
      obtain ⟨s, htakes, hrest⟩ := readEntries_cons_eq_ok.mp h
      obtain ⟨named', hrest', hnamed⟩ := ih hrest
      exact ⟨named', readEntries_cons_eq_ok.mpr ⟨s, htakes, hrest'⟩, hnamed⟩
  | swap e e' es =>
      obtain ⟨s₁, htakes, htail⟩ := readEntries_cons_eq_ok.mp h
      obtain ⟨s₂, htakes', hrest⟩ := readEntries_cons_eq_ok.mp htail
      obtain ⟨s₁', between, hfirst, hsecond, hbetween⟩ := htakes.swap hfields htakes'
      obtain ⟨named', hrest', hnamed⟩ := readEntries_of_perm_given hrest hbetween
      refine ⟨named', readEntries_cons_eq_ok.mpr ⟨s₁', hfirst, ?_⟩, hnamed⟩
      exact readEntries_cons_eq_ok.mpr ⟨_, hsecond, hrest'⟩
  | trans _ _ ih ih' =>
      obtain ⟨between, hmiddle, hbetween⟩ := ih h
      obtain ⟨named', hlast, hnamed⟩ := ih' hmiddle
      exact ⟨named', hlast, hbetween.trans hnamed⟩

/-- The places of the entries of an object. -/
def entryPlaces (es : List (Json × Json)) : List (Place × Place) :=
  es.map fun e => (⟨.value, e.1⟩, ⟨.value, e.2⟩)

theorem readEntries_inOrder (hread : ∀ f ∈ fields, Respects f.read) {record' : Place}
    {fs : List (String × Datum)} (hfs : ∀ f ∈ fs, Regular f.2) {given : List String} {r : R}
    {q : R × List String} (h : Document.readEntries record fields
      (entryPlaces (fs.map fun f => (string f.1, ofDatum f.2))) given r = .ok q) :
    Document.readEntries record' fields (entryPlaces (settledFields fs)) given r = .ok q := by
  induction fs generalizing given r with
  | nil => exact h
  | cons f fs ih =>
      obtain ⟨hf, hfs⟩ := List.forall_mem_cons.mp hfs
      obtain ⟨s, htakes, hrest⟩ := readEntries_cons_eq_ok.mp h
      refine readEntries_cons_eq_ok.mpr ⟨s, ?_, ih hfs hrest⟩
      cases htakes with
      | passed hkey hfind _ => exact .passed hkey hfind (isWhole_settled hf)
      | set hkey hfind hnew hvalue =>
          exact .set hkey hfind hnew (hread _ (List.mem_of_find?_eq_some hfind) _ hf _ hvalue)

theorem readItems_inOrder (hread : ∀ f ∈ fields, Respects f.read) {expected : String}
    {record' : Place} {place count : ℕ} {ds : List Datum} (hds : ∀ d ∈ ds, Regular d) {r r' : R}
    (h : Document.readItems record expected place count fields (ds.map written) r = .ok r') :
    Document.readItems record' expected place count fields (ds.map inOrder) r = .ok r' := by
  induction fields generalizing place count ds r with
  | nil =>
      cases ds with
      | nil => exact h
      | cons d ds => cases h
  | cons f fields ih =>
      obtain ⟨hf, hfields⟩ := List.forall_mem_cons.mp hread
      cases ds with
      | nil =>
          rw [List.map_nil, Document.readItems] at h ⊢
          split_ifs at h ⊢
          exact ih hfields hds h
      | cons d ds =>
          obtain ⟨hd, hds⟩ := List.forall_mem_cons.mp hds
          rw [List.map_cons, Document.readItems] at h ⊢
          obtain ⟨c, hc, hrest⟩ := bind_eq_ok.mp h
          exact bind_eq_ok.mpr ⟨c, hf d hd c hc, ih hfields hds hrest⟩

theorem layout_written_list (expected : String) (ds : List Datum) :
    (Source.layout expected (written (.list ds)) : Except Fault (Layout Place)) =
      .ok (.positional (ds.map written)) := by
  simp only [Source.layout, written, ofDatum, List.map_map]
  rfl

theorem layout_inOrder_list (expected : String) (ds : List Datum) :
    (Source.layout expected (inOrder (.list ds)) : Except Fault (Layout Place)) =
      .ok (.positional (ds.map inOrder)) := by
  simp only [Source.layout, inOrder, settled_list, List.map_map]
  rfl

theorem layout_written_record (expected : String) (fs : List (String × Datum)) :
    (Source.layout expected (written (.record fs)) : Except Fault (Layout Place)) =
      .ok (.named (entryPlaces (fs.map fun f => (string f.1, ofDatum f.2)))) := by
  simp only [Source.layout, written, ofDatum]
  rfl

theorem layout_inOrder_record (expected : String) {fs : List (String × Datum)}
    (hnames : (fs.map Prod.fst).Nodup) :
    ∃ es, (Source.layout expected (inOrder (.record fs)) : Except Fault (Layout Place)) =
      .ok (.named es) ∧ (entryPlaces (settledFields fs)).Perm es := by
  obtain ⟨es, hes, hperm⟩ := settled_record hnames
  refine ⟨entryPlaces es, ?_, hperm.symm.map _⟩
  simp only [Source.layout, inOrder, hes]
  rfl

/-- A reader of records whose fields set different parts of them. -/
theorem respects_record (name : String) (blank : R) (hread : ∀ f ∈ fields, Respects f.read)
    (hfields : fields.Pairwise Commutes) : Respects (readRecord name blank fields) := by
  have hfollow : ∀ x : Place, (Source.follow x : Except Fault Place) = .ok x := fun _ => rfl
  intro d hd r hr
  rw [readRecord, hfollow] at hr ⊢
  change Source.layout name (written d) >>= _ = _ at hr
  change Source.layout name (inOrder d) >>= _ = _
  cases hd with
  | list hds =>
      rw [layout_written_list] at hr
      rw [layout_inOrder_list]
      exact readItems_inOrder hread hds hr
  | record hnames hfs =>
      rw [layout_written_record] at hr
      obtain ⟨es, hes, hperm⟩ := layout_inOrder_record name hnames
      rw [hes]
      change readLayout name blank fields _ (.named _) = _ at hr
      change readLayout name blank fields _ (.named es) = _
      obtain ⟨⟨r', given⟩, hentries, hend⟩ := bind_eq_ok.mp hr
      obtain ⟨given', hentries', hgiven⟩ := readEntries_of_perm hfields hperm
        (readEntries_inOrder hread hfs hentries)
      have habsent : absent? fields given' = absent? fields given := by
        unfold absent?
        simp only [List.contains_eq_mem, hgiven.mem_iff]
      refine bind_eq_ok.mpr ⟨(r', given'), hentries', ?_⟩
      simp only [habsent]
      cases hmissing : absent? fields given with
      | none =>
          simp only [hmissing] at hend
          exact hend
      | some n =>
          simp only [hmissing] at hend
          cases hend
  | _ =>
      rw [written, ofDatum] at hr
      cases hr

/-- What reads back from data reads back from the value that stands for the data. -/
theorem decodeValue_ofDatum {d : Datum} {a : α} (hread : Reads read d a) (h : Respects read)
    (hd : Regular d) : decodeValue read (ofDatum d) = .ok a :=
  h d hd a (hread (written d) rfl)

end Json

end RequestAudit
