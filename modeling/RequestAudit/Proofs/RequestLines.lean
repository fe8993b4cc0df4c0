import Mathlib.Data.List.Basic
import RequestAudit.Proofs.JsonText
import RequestAudit.Proofs.Stars
import RequestAudit.Request.Document

/-!
# Recorded requests read back

The line of a request is a JSON object. It begins and ends with a brace, so that trimming takes
off what blanks stand around it and nothing else, and it is neither blank nor a comment. What a
request leaves out of its line is what a blank one has.
-/

namespace RequestAudit

open Document
open Document.Datum (forall_always forall_ifSome forall_unlessBlank)
open Json (Fits fits_map)

namespace Text

/-- A text of blanks only. -/
def IsBlank (s : String) : Prop := ∀ c ∈ s.toList, isBlank c = true

theorem dropEndWhile_append_of_pos {p : Char → Bool} {cs : List Char}
    (h : ∀ c ∈ cs, p c = true) (ds : List Char) :
    dropEndWhile p (ds ++ cs) = dropEndWhile p ds := by
  unfold dropEndWhile
  rw [List.reverse_append, List.dropWhile_append_of_pos]
  simpa using h

/-- A text between two characters that are no blanks is what is left of it with blanks around. -/
theorem trim_between {a b : Char} (ha : isBlank a = false) (hb : isBlank b = false)
    (cs : List Char) {w₁ w₂ : String} (h₁ : IsBlank w₁) (h₂ : IsBlank w₂) :
    trim (w₁.toList ++ (a :: (cs ++ [b])) ++ w₂.toList) = a :: (cs ++ [b]) := by
  unfold trim
  rw [List.append_assoc, List.dropWhile_append_of_pos h₁, List.cons_append,
    List.dropWhile_cons_of_neg (by simp [ha]), ← List.cons_append,
    dropEndWhile_append_of_pos h₂, ← List.cons_append, dropEndWhile_concat,
    if_neg (by simp [hb])]

end Text

namespace Json

theorem writeFields_ends (fs : List (String × Datum)) :
    ∃ cs, writeFields fs = cs ++ ['\x7d'] := by
  induction fs with
  | nil => exact ⟨[], by rw [writeFields, List.nil_append]⟩
  | cons f fs ih =>
      obtain ⟨name, d⟩ := f
      obtain ⟨cs, hcs⟩ := ih
      refine ⟨',' :: (writeString name ++ ':' :: (write d ++ cs)), ?_⟩
      simp [writeFields, hcs]

/-- A record stands between braces. -/
theorem write_record_braces (fs : List (String × Datum)) :
    ∃ cs, write (.record fs) = '\x7b' :: (cs ++ ['\x7d']) := by
  cases fs with
  | nil => exact ⟨[], by rw [write, List.nil_append]⟩
  | cons f fs =>
      obtain ⟨name, d⟩ := f
      obtain ⟨cs, hcs⟩ := writeFields_ends fs
      refine ⟨writeString name ++ ':' :: (write d ++ cs), ?_⟩
      simp [write, hcs]

end Json

section Reading

variable {V : Type} {m : Type → Type} [Monad m] [LawfulMonad m] [Source V m] [ShowingSource V m]

theorem User.reads_datum (u : User) : Reads (read : V → m User) u.datum u := by
  have hparts : u.datum = .record (List.flatten [Datum.always "name" (.text u.name),
      Datum.always "groups" (.texts u.groups)]) := by
    simp [datum]
  rw [hparts]
  apply reads_record "struct User" _ (by simp only [fields, field, List.map]; decide)
  exact .always (reads_text _) <| .always (reads_texts _) <| .nil _

theorem Resource.reads_datum (r : Resource) : Reads (read : V → m Resource) r.datum r := by
  have hparts : r.datum = .record (List.flatten [Datum.always "apiGroup" (.text r.apiGroup),
      Datum.always "apiVersion" (.text r.apiVersion), Datum.always "resource" (.text r.type),
      Datum.always "subresource" (.text r.subresource), Datum.always "name" (.text r.name),
      Datum.always "namespace" (.text r.ns)]) := by
    simp [datum]
  rw [hparts]
  apply reads_record "struct ResourceTarget" _ (by simp only [fields, field, List.map]; decide)
  exact .always (reads_text _) <| .always (reads_text _) <| .always (reads_text _) <|
    .always (reads_text _) <| .always (reads_text _) <| .always (reads_text _) <| .nil _

theorem Request.reads_datum (r : Request) : Reads (read : V → m Request) r.datum r := by
  have hparts : r.datum = .record (List.flatten [Datum.ifSome "user" r.user? User.datum,
      Datum.always "verb" (.text r.verb), Datum.ifSome "resource" r.resource? Resource.datum,
      Datum.unlessBlank "path" r.path]) := by
    simp [datum]
  rw [hparts]
  apply reads_record "struct AttributesRecord" _ (by simp only [fields, field, List.map]; decide)
  exact .ifSome (by decide) (fun u _ => u.reads_datum) rfl <| .always (reads_text _) <|
    .ifSome (by decide) (fun t _ => t.reads_datum) rfl <| .unlessBlank (by decide) rfl <| .nil _

end Reading

theorem User.fits_datum (u : User) : Fits u.datum := by
  apply Fits.record
  simp only [List.forall_mem_append]
  exact ⟨forall_always (.text _), forall_always (fits_map _ .text)⟩

theorem Resource.fits_datum (r : Resource) : Fits r.datum := by
  apply Fits.record
  simp only [List.forall_mem_append]
  exact ⟨⟨⟨⟨⟨forall_always (.text _), forall_always (.text _)⟩, forall_always (.text _)⟩,
    forall_always (.text _)⟩, forall_always (.text _)⟩, forall_always (.text _)⟩

namespace Request

theorem fits_datum (r : Request) : Fits r.datum := by
  apply Fits.record
  simp only [List.forall_mem_append]
  exact ⟨⟨⟨forall_ifSome fun u _ => u.fits_datum, forall_always (.text _)⟩,
    forall_ifSome fun t _ => t.fits_datum⟩, forall_unlessBlank (.text _)⟩

theorem decodeText_line (r : Request) : Json.decodeText read r.line = .ok r :=
  Json.decodeText_render r.reads_datum r.fits_datum

/-- What trimming leaves of the line of a request is the line, which begins with a brace. -/
theorem trim_line (r : Request) {w₁ w₂ : String} (h₁ : Text.IsBlank w₁) (h₂ : Text.IsBlank w₂) :
    ∃ cs, r.line.toList = '\x7b' :: cs ∧
      Text.trim (w₁ ++ r.line ++ w₂).toList = '\x7b' :: cs := by
  obtain ⟨cs, hcs⟩ := Json.write_record_braces
    (Datum.ifSome "user" r.user? User.datum ++ Datum.always "verb" (.text r.verb)
      ++ Datum.ifSome "resource" r.resource? Resource.datum ++ Datum.unlessBlank "path" r.path)
  have hline : r.line.toList = '\x7b' :: (cs ++ ['\x7d']) := by
    rw [line, Json.render, String.toList_ofList]
    exact hcs
  refine ⟨cs ++ ['\x7d'], hline, ?_⟩
  rw [String.toList_append, String.toList_append, hline]
  exact Text.trim_between (by decide) (by decide) cs h₁ h₂

theorem ofLine_padded (r : Request) {w₁ w₂ : String} (h₁ : Text.IsBlank w₁)
    (h₂ : Text.IsBlank w₂) : ofLine (w₁ ++ r.line ++ w₂) = .ok (some r) := by
  obtain ⟨cs, hline, htrim⟩ := r.trim_line h₁ h₂
  have hread : Json.decodeText read (String.ofList ('\x7b' :: cs)) = .ok r := by
    rw [← hline, String.ofList_toList]
    exact r.decodeText_line
  rw [ofLine, htrim]
  change some <$> Json.decodeText read (String.ofList ('\x7b' :: cs)) = _
  rw [hread]
  rfl

/-- Whatever texts a request has, its line reads as the request with any blanks around it. So it
never passes for a blank line or a comment, and no other request has the same line. -/
theorem line_reads_back :
    (∀ (r : Request) (w₁ w₂ : String), Text.IsBlank w₁ → Text.IsBlank w₂ →
      ofLine (w₁ ++ r.line ++ w₂) = .ok (some r)) ∧
    (∀ (r : Request) (w₁ w₂ : String), Text.IsBlank w₁ → Text.IsBlank w₂ →
      Text.trim (w₁ ++ r.line ++ w₂).toList ≠ [] ∧
        (Text.trim (w₁ ++ r.line ++ w₂).toList).head? ≠ some '#') ∧
    Function.Injective line := by
  refine ⟨fun r w₁ w₂ h₁ h₂ => r.ofLine_padded h₁ h₂, fun r w₁ w₂ h₁ h₂ => ?_, ?_⟩
  · obtain ⟨cs, -, htrim⟩ := r.trim_line h₁ h₂
    rw [htrim]
    exact ⟨List.cons_ne_nil _ _, by simp⟩
  · intro r q hline
    have hr := r.decodeText_line
    rw [hline, q.decodeText_line] at hr
    exact (Except.ok.inj hr).symm

/-- A request with a path beside its resource and texts of all sorts, among blanks of all sorts. -/
theorem line_reads_back_odd :
    let r : Request := ⟨some ⟨"#\n", ["", "\"\\\x00é"]⟩, "", some { name := "\x7f\x7b" }, " "⟩
    Text.IsBlank "\t\u3000" ∧ Text.IsBlank "\r\n" ∧
      ofLine ("\t\u3000" ++ r.line ++ "\r\n") = .ok (some r) := by
  intro r
  have h₁ : Text.IsBlank "\t\u3000" := List.all_eq_true.mp (by rfl)
  have h₂ : Text.IsBlank "\r\n" := List.all_eq_true.mp (by rfl)
  exact ⟨h₁, h₂, line_reads_back.1 r _ _ h₁ h₂⟩

end Request

end RequestAudit
