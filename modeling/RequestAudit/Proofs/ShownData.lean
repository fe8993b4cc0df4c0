import Mathlib.Data.List.Forall2
import RequestAudit.Document.Datum
import RequestAudit.Document.Source

/-!
# Reading what was written

A notation shows data where its places answer every question as the data would. Of places that
show a record, every field is read that was written, and a field that was left out keeps what the
record began with. So a record is read back if each field reads back, and what may be left out is
left out only where the blank record has it already.
-/

namespace RequestAudit.Document

namespace Datum

variable {P : String × Datum → Prop} {name : String} {d : Datum}

theorem forall_always (h : P (name, d)) : ∀ f ∈ always name d, P f := by
  simpa [always] using h

theorem forall_unlessEmpty {α : Type} {xs : List α} {g : List α → Datum} (h : P (name, g xs)) :
    ∀ f ∈ unlessEmpty name xs g, P f := by
  unfold unlessEmpty
  split
  · simp
  · exact forall_always h

theorem forall_unlessBlank {s : String} (h : P (name, text s)) : ∀ f ∈ unlessBlank name s, P f := by
  unfold unlessBlank
  split
  · simp
  · exact forall_always h

theorem forall_ifSome {α : Type} {x : Option α} {g : α → Datum}
    (h : ∀ a, x = some a → P (name, g a)) : ∀ f ∈ ifSome name x g, P f := by
  cases x with
  | none => simp [ifSome]
  | some a => exact forall_always (h a rfl)

end Datum

theorem find?_name {V R : Type} {m : Type → Type} {before after : List (Field V m R)} {f : Field V m R}
    (h : ((before ++ f :: after).map (·.name)).Nodup) :
    (before ++ f :: after).find? (·.name == f.name) = some f := by
  have hbefore : ∀ g ∈ before, (g.name == f.name) = false := by
    intro g hg
    rw [List.map_append, List.nodup_append] at h
    simpa using h.2.2 g.name (List.mem_map_of_mem hg) f.name (by simp)
  rw [List.find?_append, List.find?_eq_none.mpr (by simpa using hbefore)]
  simp

/-- A source whose places can show data. -/
class ShowingSource (V : Type) (m : outParam (Type → Type)) [Monad m] [Source V m] where
  Shows : V → Datum → Prop
  follow {x : V} {d : Datum} (h : Shows x d) : Source.follow x = pure x
  text {x : V} {s : String} (h : Shows x (.text s)) (expected : String) :
    Source.text expected x = pure s
  flag {x : V} {b : Bool} (h : Shows x (.flag b)) : Source.flag x = pure b
  optional {x : V} {d : Datum} (h : Shows x d) : Source.optional x = pure (some x)
  items {x : V} {ds : List Datum} (h : Shows x (.list ds)) :
    ∃ xs, Source.items x = pure xs ∧ List.Forall₂ Shows xs ds
  choice {x : V} {s : String} (h : Shows x (.text s)) {names : List String} (hs : s ∈ names) :
    Source.choice names x = pure s
  layout {x : V} {fs : List (String × Datum)} (h : Shows x (.record fs)) (expected : String) :
    ∃ es, Source.layout expected x = pure (.named es) ∧
      List.Forall₂ (fun e f => Source.key x e.1 = pure f.1 ∧ Shows e.2 f.2) es fs

variable {V : Type} {m : Type → Type} [Monad m] [Source V m] [ShowingSource V m]

/-- The entries of a record show its fields. -/
def ShowsFields (record : V) (es : List (V × V)) (fs : List (String × Datum)) : Prop :=
  List.Forall₂ (fun e f => Source.key record e.1 = pure f.1 ∧ ShowingSource.Shows e.2 f.2) es fs

/-- Wherever the data are shown, they are read as `a`. -/
def Reads {α : Type} (read : V → m α) (d : Datum) (a : α) : Prop :=
  ∀ x, ShowingSource.Shows x d → read x = pure a

theorem reads_text (s : String) : Reads (readText : V → m String) (.text s) s :=
  fun _ hx => ShowingSource.text hx _

theorem reads_flag (b : Bool) : Reads (Source.flag : V → m Bool) (.flag b) b :=
  fun _ hx => ShowingSource.flag hx

variable [LawfulMonad m] {α : Type}

theorem reads_map {β : Type} {read : V → m α} {d : Datum} {a : α} (h : Reads read d a)
    (f : α → β) : Reads (fun x => f <$> read x) d (f a) := by
  intro x hx
  simp only [h x hx, map_pure]

theorem reads_option {read : V → m α} {d : Datum} {a : α} (h : Reads read d a) :
    Reads (readOption read) d (some a) := by
  intro x hx
  simp only [readOption, ShowingSource.optional hx, pure_bind, h x hx, map_pure]

theorem mapM_shown {β : Type} {read : V → m α} {f : β → Datum} {g : β → α} {bs : List β}
    (h : ∀ b ∈ bs, Reads read (f b) (g b)) {xs : List V}
    (hxs : List.Forall₂ ShowingSource.Shows xs (bs.map f)) : xs.mapM read = pure (bs.map g) := by
  induction bs generalizing xs with
  | nil =>
      cases hxs
      rfl
  | cons b bs ih =>
      obtain ⟨hb, hbs⟩ := List.forall_mem_cons.mp h
      cases hxs with
      | cons hx hxs => simp only [List.mapM_cons, hb _ hx, ih hbs hxs, pure_bind, List.map_cons]

theorem reads_list {β : Type} {read : V → m α} {f : β → Datum} {g : β → α} {bs : List β}
    (h : ∀ b ∈ bs, Reads read (f b) (g b)) : Reads (readList read) (.list (bs.map f)) (bs.map g) := by
  intro x hx
  obtain ⟨xs, hitems, hxs⟩ := ShowingSource.items hx
  rw [readList, hitems, pure_bind, mapM_shown h hxs]

theorem reads_texts (ss : List String) :
    Reads (readList readText : V → m (List String)) (.texts ss) ss := by
  simpa [Datum.texts] using reads_list (g := id) fun s (_ : s ∈ ss) => reads_text s

/-! ## Records -/

/-- What the parts of a record make of it, one part for each field. -/
inductive Carries {R : Type} : List (Field V m R) → List (List (String × Datum)) → R → R → Prop where
  | nil (r : R) : Carries [] [] r r
  | given {f : Field V m R} {fields : List (Field V m R)} {parts : List (List (String × Datum))}
      {d : Datum} {change : R → R} {r r' : R} (hread : Reads f.read d change)
      (h : Carries fields parts (change r) r') :
      Carries (f :: fields) ([(f.name, d)] :: parts) r r'
  | omitted {f : Field V m R} {fields : List (Field V m R)} {parts : List (List (String × Datum))}
      {r r' : R} (hf : f.presence ≠ .required) (h : Carries fields parts r r') :
      Carries (f :: fields) ([] :: parts) r r'

variable {R : Type}

section Parts

variable {name : String} {presence : Presence} {read : V → m α} {set : α → R → R}
  {fields : List (Field V m R)} {parts : List (List (String × Datum))} {r r' : R}

theorem Carries.always {d : Datum} {a : α} (hread : Reads read d a)
    (h : Carries fields parts (set a r) r') :
    Carries (field name presence read set :: fields) (Datum.always name d :: parts) r r' :=
  .given (f := field name presence read set) (reads_map hread set) h

theorem Carries.unlessEmpty {β : Type} {f : List β → Datum} {bs : List β} (g : List β → α)
    (hpresence : presence ≠ .required) (hread : Reads read (f bs) (g bs)) (hblank : set (g []) r = r)
    (h : Carries fields parts (set (g bs) r) r') :
    Carries (field name presence read set :: fields) (Datum.unlessEmpty name bs f :: parts) r r' := by
  cases bs with
  | nil =>
      rw [hblank] at h
      exact .omitted hpresence h
  | cons b bs => exact .always hread h

theorem Carries.unlessBlank {s : String} {set : String → R → R} (hpresence : presence ≠ .required)
    (hblank : set "" r = r) (h : Carries fields parts (set s r) r') :
    Carries (field name presence readText set :: fields) (Datum.unlessBlank name s :: parts) r r' := by
  unfold Datum.unlessBlank
  split
  · next hs =>
      rw [String.isEmpty_iff] at hs
      rw [hs, hblank] at h
      exact .omitted hpresence h
  · exact .always (reads_text s) h

theorem Carries.ifSome {β : Type} {f : β → Datum} {x : Option β} {read : V → m β}
    {set : Option β → R → R} (hpresence : presence ≠ .required)
    (hread : ∀ b, x = some b → Reads read (f b) b) (hblank : set none r = r)
    (h : Carries fields parts (set x r) r') :
    Carries (field name presence (readOption read) set :: fields) (Datum.ifSome name x f :: parts)
      r r' := by
  cases x with
  | none =>
      rw [hblank] at h
      exact .omitted hpresence h
  | some b => exact .always (reads_option (hread b rfl)) h

end Parts

/-- The fields from one on are read from the entries that show their parts. -/
theorem readEntries_shown {record : V} (before : List (Field V m R)) {fields : List (Field V m R)}
    {parts : List (List (String × Datum))} {r r' : R} (h : Carries fields parts r r')
    (hnodup : ((before ++ fields).map (·.name)).Nodup) {es : List (V × V)}
    (hes : ShowsFields record es parts.flatten) (given : List String)
    (hgiven : ∀ n ∈ given, n ∈ before.map (·.name)) :
    ∃ given', readEntries record (before ++ fields) es given r = pure (r', given') ∧
      given ⊆ given' ∧ ∀ f ∈ fields, f.presence = .required → f.name ∈ given' := by
  -- `before` has the fields whose entries have passed, so that no name is given twice.
  induction h generalizing before es given with
  | nil r =>
      cases hes
      exact ⟨given, rfl, List.Subset.refl given, by simp⟩
  | @given f fields parts d change r r' hread _ ih =>
      cases hes with
      | @cons e _ es _ he hes =>
          obtain ⟨hkey, hshows⟩ := he
          have hnew : given.contains f.name = false := by
            rw [← Bool.not_eq_true, List.contains_iff_mem]
            intro hmem
            rw [List.map_append, List.nodup_append] at hnodup
            exact hnodup.2.2 _ (hgiven _ hmem) _ (by simp) rfl
          have hgiven' : ∀ n ∈ f.name :: given, n ∈ (before ++ [f]).map (·.name) := by
            intro n hn
            rw [List.map_append, List.mem_append]
            rcases List.mem_cons.mp hn with rfl | hn
            · exact .inr (List.mem_singleton_self _)
            · exact .inl (hgiven n hn)
          obtain ⟨given', hrest, hsub, hrequired⟩ := ih (before ++ [f])
            (by simpa using hnodup) hes (f.name :: given) hgiven'
          rw [List.append_assoc, List.singleton_append] at hrest
          refine ⟨given', ?_, fun n hn => hsub (List.mem_cons_of_mem _ hn), ?_⟩
          · rw [readEntries, hkey, pure_bind, find?_name hnodup]
            simp only [hnew, Bool.false_eq_true, if_false, hread e.2 hshows, pure_bind]
            exact hrest
          · intro g hg hpresence
            rcases List.mem_cons.mp hg with rfl | hg
            · exact hsub List.mem_cons_self
            · exact hrequired g hg hpresence
  | @omitted f fields parts r r' hf _ ih =>
      have hgiven' : ∀ n ∈ given, n ∈ (before ++ [f]).map (·.name) := by
        intro n hn
        rw [List.map_append, List.mem_append]
        exact .inl (hgiven n hn)
      obtain ⟨given', hrest, hsub, hrequired⟩ := ih (before ++ [f])
        (by simpa using hnodup) hes given hgiven'
      rw [List.append_assoc, List.singleton_append] at hrest
      refine ⟨given', hrest, hsub, fun g hg hpresence => ?_⟩
      rcases List.mem_cons.mp hg with rfl | hg
      · exact absurd hpresence hf
      · exact hrequired g hg hpresence

variable {fields : List (Field V m R)} {parts : List (List (String × Datum))} {r r' : R}

theorem readLayout_shown (name : String) {record : V} (h : Carries fields parts r r')
    (hnodup : (fields.map (·.name)).Nodup) {es : List (V × V)}
    (hes : ShowsFields record es parts.flatten) :
    readLayout name r fields record (.named es) = pure r' := by
  obtain ⟨given, hentries, -, hrequired⟩ := readEntries_shown [] h hnodup hes []
    (by simp)
  have habsent : absent? fields given = none := by
    rw [absent?, Option.map_eq_none_iff, List.find?_eq_none]
    intro f hf hmissing
    simp only [Bool.and_eq_true, beq_iff_eq, Bool.not_eq_true', ← Bool.not_eq_true,
      List.contains_iff_mem] at hmissing
    exact hmissing.2 (hrequired f hf hmissing.1)
  rw [List.nil_append] at hentries
  simp only [readLayout, hentries, pure_bind, habsent]

/-- A record is read as its parts make it from the blank one. -/
theorem reads_record (name : String) (h : Carries fields parts r r')
    (hnodup : (fields.map (·.name)).Nodup) :
    Reads (readRecord name r fields) (.record parts.flatten) r' := by
  intro x hx
  obtain ⟨es, hlayout, hes⟩ := ShowingSource.layout hx name
  rw [readRecord, ShowingSource.follow hx, pure_bind, hlayout, pure_bind]
  exact readLayout_shown name h hnodup hes

end RequestAudit.Document
