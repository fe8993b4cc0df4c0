import RequestAudit.Proofs.Accounts
import RequestAudit.Proofs.JsonText
import RequestAudit.Proofs.Lines
import RequestAudit.Proofs.LogWriter
import RequestAudit.Proofs.PolicyData

/-!
# The log read back

An entry stands on one line of the log, whatever its texts hold, and the line reads as the entry
with its stages as they are read for their names. So a log that was empty splits into the lines of
what was written to it, and reads as the same entries in the same order.
-/

namespace RequestAudit

open Document
open Document.Datum (forall_always forall_ifSome forall_unlessBlank forall_unlessEmpty)
open Json (Fits Place fits_map ofDatum)
open Text (Utf8.decode Utf8.encode)

/-! ## Targets -/

namespace Target

theorem keep_text (s : String) : keep (ofDatum (.text s)) = .ok () := by
  rw [ofDatum]
  rfl

/-- Texts under other names are kept for the fields of the kind. -/
theorem splitKind_texts (kind? : Option String) {fs : List (String × Datum)}
    (h : ∀ f ∈ fs, f.1 ≠ "kind" ∧ ∃ s, f.2 = .text s) :
    splitKind kind? (fs.map fun f => (.string f.1, ofDatum f.2)) =
      .ok (kind?, fs.map fun f => (⟨.kept, .string f.1⟩, ⟨.kept, ofDatum f.2⟩)) := by
  induction fs with
  | nil => rfl
  | cons f fs ih =>
      obtain ⟨name, d⟩ := f
      obtain ⟨⟨hname, s, rfl⟩, hfs⟩ := List.forall_mem_cons.mp h
      simp only [List.map_cons, splitKind, if_neg hname, keep_text, ih hfs]
      rfl

/-- An object that begins with the kind is read as the kind says. -/
theorem read_kind {x : Place} {kind : String} (hkind : kind ∈ kinds)
    {fs : List (String × Datum)} (hfs : ∀ f ∈ fs, f.1 ≠ "kind" ∧ ∃ s, f.2 = .text s)
    (hx : ShowingSource.Shows x (.record (("kind", .text kind) :: fs))) :
    read x = readKind kind (.named (fs.map fun f =>
      (⟨.kept, .string f.1⟩, ⟨.kept, ofDatum f.2⟩))) := by
  rw [Json.shows_iff, ofDatum, List.map_cons, ofDatum] at hx
  have hname : Json.nameOf kinds "variant identifier" (.string kind) = .ok kind := by
    rw [Json.nameOf, if_pos (List.contains_iff_mem.mpr hkind)]
  have hsplit : splitKind none ((.string "kind", .string kind) ::
      fs.map fun f => (.string f.1, ofDatum f.2)) = .ok (some kind,
        fs.map fun f => (⟨.kept, .string f.1⟩, ⟨.kept, ofDatum f.2⟩)) := by
    simp only [splitKind, if_true, hname]
    exact splitKind_texts (some kind) hfs
  rw [read, hx]
  simp only [hsplit]
  rfl

theorem showsFields_kept (record : Place) (fs : List (String × Datum)) :
    ShowsFields record (fs.map fun f => ((⟨.kept, .string f.1⟩ : Place), ⟨.kept, ofDatum f.2⟩))
      fs := by
  rw [ShowsFields, List.forall₂_map_left_iff, List.forall₂_same]
  exact fun _ _ => ⟨rfl, rfl⟩

theorem reads_path (p : String) : Reads read (path p).datum (path p) := by
  intro x hx
  have hparts : Carries pathFields [Datum.always "path" (.text p)] "" p :=
    .always (reads_text p) <| .nil _
  have hdatum : (path p).datum = .record (("kind", .text "non_resource") ::
      List.flatten [Datum.always "path" (.text p)]) := by
    simp [datum, Datum.always]
  rw [hdatum] at hx
  rw [read_kind (by decide) (by simp [Datum.always]) hx, readKind, if_neg (by decide),
    readLayout_shown _ hparts (by decide) (showsFields_kept _ _)]
  rfl

theorem text_of_always {name s : String} (hname : name ≠ "kind") {f : String × Datum}
    (hf : f ∈ Datum.always name (.text s)) : f.1 ≠ "kind" ∧ ∃ s, f.2 = .text s := by
  rw [List.mem_singleton.mp hf]
  exact ⟨hname, s, rfl⟩

theorem text_of_unlessBlank {name s : String} (hname : name ≠ "kind") {f : String × Datum}
    (hf : f ∈ Datum.unlessBlank name s) : f.1 ≠ "kind" ∧ ∃ s, f.2 = .text s := by
  unfold Datum.unlessBlank at hf
  split at hf
  · cases hf
  · exact text_of_always hname hf

theorem reads_resource (r : Resource) : Reads read (resource r).datum (resource r) := by
  intro x hx
  have hparts : Carries resourceFields [Datum.always "api_group" (.text r.apiGroup),
      Datum.unlessBlank "api_version" r.apiVersion, Datum.always "resource" (.text r.type),
      Datum.unlessBlank "subresource" r.subresource, Datum.unlessBlank "name" r.name,
      Datum.unlessBlank "namespace" r.ns] {} r :=
    .always (reads_text _) <| .unlessBlank (by decide) rfl <| .always (reads_text _) <|
      .unlessBlank (by decide) rfl <| .unlessBlank (by decide) rfl <|
      .unlessBlank (by decide) rfl <| .nil _
  have hdatum : (resource r).datum = .record (("kind", .text "resource") ::
      List.flatten [Datum.always "api_group" (.text r.apiGroup),
        Datum.unlessBlank "api_version" r.apiVersion, Datum.always "resource" (.text r.type),
        Datum.unlessBlank "subresource" r.subresource, Datum.unlessBlank "name" r.name,
        Datum.unlessBlank "namespace" r.ns]) := by
    simp [datum, Datum.always]
  rw [hdatum] at hx
  rw [read_kind (by decide) ?_ hx, readKind, if_pos rfl,
    readLayout_shown _ hparts (by decide) (showsFields_kept _ _)]
  · rfl
  · intro f hf
    obtain ⟨part, hpart, hf⟩ := List.mem_flatten.mp hf
    simp only [List.mem_cons, List.not_mem_nil, or_false] at hpart
    rcases hpart with rfl | rfl | rfl | rfl | rfl | rfl
    · exact text_of_always (by decide) hf
    · exact text_of_unlessBlank (by decide) hf
    · exact text_of_always (by decide) hf
    · exact text_of_unlessBlank (by decide) hf
    · exact text_of_unlessBlank (by decide) hf
    · exact text_of_unlessBlank (by decide) hf

theorem reads_datum (t : Target) : Reads read t.datum t := by
  cases t with
  | resource r => exact reads_resource r
  | path p => exact reads_path p

end Target

theorem Outline.reads_datum (o : Outline) : Reads read o.datum o := by
  have hparts : o.datum = .record (List.flatten [Datum.ifSome "user" o.user? .text,
      Datum.always "verb" (.text o.verb), Datum.always "target" o.target.datum]) := by
    simp [datum]
  rw [hparts]
  refine reads_record "struct RequestSummary" ?_ (by decide)
  exact .ifSome (by decide) (fun s _ => reads_text s) rfl <| .always (reads_text _) <|
    .always o.target.reads_datum <| .nil _

/-! ## Entries -/

namespace Entry

/-- An entry whose stamp reads back from its written forms, and with the place of a rule that is
a count of the machine's word size. -/
structure Recordable (e : Entry) : Prop where
  id : Id.ofText? e.stamp.id.text = some e.stamp.id
  time : Timestamp.ofText? e.stamp.time.text = some e.stamp.time
  place : ∀ i, e.rule? = some i → i ≤ Json.wordMax

/-- The entry as it is read back. -/
def byName (e : Entry) : Entry :=
  e.mapVerdict fun v => { v with omitStages := v.omitStages.map Stage.byName }

theorem byName_eq {e : Entry} (h : ∀ s ∈ e.verdict.omitStages, s.IsNamed) : e.byName = e := by
  rw [byName, mapVerdict, Stage.map_byName h]

theorem reads_datum {e : Entry} (h : e.Recordable) : Reads read e.datum e.byName := by
  have hid : Reads Id.read (.text e.stamp.id.text) e.stamp.id := by
    intro x hx
    simp only [Id.read, ShowingSource.text hx, pure_bind, h.id]
  have htime : Reads Timestamp.read (.text e.stamp.time.text) e.stamp.time := by
    intro x hx
    simp only [Timestamp.read, ShowingSource.text hx, pure_bind, h.time]
  have hparts : e.datum = .record (List.flatten [Datum.always "id" (.text e.stamp.id.text),
      Datum.always "timestamp" (.text e.stamp.time.text),
      Datum.always "request" e.request.datum, Datum.always "level" e.verdict.level.datum,
      Datum.unlessEmpty "omit_stages" e.verdict.omitStages Stage.data,
      Datum.always "omit_managed_fields" (.flag e.verdict.omitManagedFields),
      Datum.ifSome "matched_rule" e.rule? .number]) := by
    simp [datum]
  rw [hparts]
  refine reads_record "struct DecisionEntry" ?_ (by decide)
  exact .always hid <| .always htime <| .always e.request.reads_datum <|
    .always e.verdict.level.reads_datum <|
    .unlessEmpty (·.map Stage.byName) (by decide) (Stage.reads_data _) rfl <|
    .always (reads_flag _) <| .ifSome (by decide) (fun i _ => Json.reads_index i) rfl <| .nil _

/-! ## Lines -/

theorem fits_datum {e : Entry} (h : e.Recordable) : Fits e.datum := by
  have htarget : Fits e.request.target.datum := by
    cases e.request.target with
    | path p =>
        refine .record ?_
        simp only [List.forall_mem_append]
        exact ⟨forall_always (.text _), forall_always (.text _)⟩
    | resource r =>
        refine .record ?_
        simp only [List.forall_mem_append]
        exact ⟨⟨⟨⟨⟨⟨forall_always (.text _), forall_always (.text _)⟩,
          forall_unlessBlank (.text _)⟩, forall_always (.text _)⟩, forall_unlessBlank (.text _)⟩,
          forall_unlessBlank (.text _)⟩, forall_unlessBlank (.text _)⟩
  have hrequest : Fits e.request.datum := by
    refine .record ?_
    simp only [List.forall_mem_append]
    exact ⟨⟨forall_ifSome fun s _ => .text s, forall_always (.text _)⟩, forall_always htarget⟩
  refine .record ?_
  simp only [List.forall_mem_append]
  exact ⟨⟨⟨⟨⟨⟨forall_always (.text _), forall_always (.text _)⟩, forall_always hrequest⟩,
    forall_always (.text _)⟩, forall_unlessEmpty (fits_map _ fun s => .text s.name)⟩,
    forall_always (.flag _)⟩, forall_ifSome fun i hi => .number (h.place i hi)⟩

theorem ofLine_line {e : Entry} (h : e.Recordable) : ofLine e.line = .ok e.byName :=
  Json.decodeText_render (reads_datum h) (fits_datum h)

/-- The entry on a line of a log, whose end does not matter. -/
def ofBytes (line : List UInt8) : Except Fault Entry :=
  match Utf8.decode (line.takeWhile (· != Replay.lineEnd)) with
  | .ok cs => ofLine (String.ofList cs)
  | .error _ => .error .unreadable

end Entry

namespace Log.Writer

/-- The line of the log reads back as the entry: it is one line, with its end, and says what the
entry says. -/
structure ReadsBack (e : Entry) : Prop where
  ends : ∃ body, lineBytes e = body ++ [Replay.lineEnd] ∧ Replay.lineEnd ∉ body
  entry : Entry.ofBytes (lineBytes e) = .ok e.byName

theorem lineEnd_notMem_encode {cs : List Char} (h : '\n' ∉ cs) :
    Replay.lineEnd ∉ Utf8.encode cs := by
  rw [Utf8.encode, List.mem_flatMap]
  rintro ⟨c, hc, hmem⟩
  have hne : c ≠ '\n' := fun heq => h (heq ▸ hc)
  exact Replay.lineEnd_notMem_encodeChar hne hmem

theorem lineBytes_eq (e : Entry) :
    lineBytes e = Utf8.encode e.line.toList ++ [Replay.lineEnd] := by
  rw [lineBytes, Utf8.encode, List.flatMap_append, List.flatMap_singleton,
    Replay.encodeChar_lineEnd]
  rfl

theorem readsBack_of_recordable {e : Entry} (h : e.Recordable) : ReadsBack e := by
  have hline : Replay.lineEnd ∉ Utf8.encode e.line.toList := by
    refine lineEnd_notMem_encode ?_
    rw [Entry.line, Json.render, String.toList_ofList]
    exact Json.lineFeed_notMem_write (Entry.fits_datum h)
  refine ⟨⟨_, lineBytes_eq e, hline⟩, ?_⟩
  have hbefore : (lineBytes e).takeWhile (· != Replay.lineEnd) = Utf8.encode e.line.toList := by
    rw [lineBytes_eq, List.takeWhile_append_of_pos]
    · simp
    · intro b hb
      simpa using fun heq : b = Replay.lineEnd => hline (heq ▸ hb)
  simp only [Entry.ofBytes, hbefore, Text.Utf8.decode_encode, String.ofList_toList]
  exact Entry.ofLine_line h

/-- Whole lines are what a text of them splits into. -/
theorem split_lines {es : List Entry} (h : ∀ e ∈ es, ReadsBack e) :
    Replay.split (es.flatMap lineBytes) = es.map lineBytes := by
  induction es with
  | nil => exact Replay.split_nil
  | cons e es ih =>
      obtain ⟨he, hes⟩ := List.forall_mem_cons.mp h
      obtain ⟨body, hbody, hline⟩ := he.ends
      rw [List.flatMap_cons, hbody, List.append_assoc, List.singleton_append,
        Replay.split_line_append hline, ih hes, List.map_cons, hbody]

/-- Writes entries in order, up to the first one that cannot be written. -/
def writeAll (w : Writer) : List Entry → Files → Option Fault × Writer × Files
  | [], fs => (none, w, fs)
  | e :: es, fs =>
    let a := w.write e fs
    if a.1.isSome then a else writeAll a.2.1 es a.2.2

theorem writeAll_spec {w : Writer} {fs : Files} {content : List UInt8} (h : Stands w fs content)
    (es : List Entry) :
    ∃ w' fs' content', w.writeAll es fs = (none, w', fs') ∧ w'.target = w.target ∧
      Stands w' fs' content' ∧
      content' ++ w'.collected = content ++ w.collected ++ es.flatMap lineBytes := by
  induction es generalizing w fs content with
  | nil => exact ⟨w, fs, content, rfl, rfl, h, by simp⟩
  | cons e es ih =>
      obtain ⟨w₁, fs₁, content₁, hwrite, htarget, hstands, htext⟩ := write_spec h e
      obtain ⟨w', fs', content', hrest, htarget', hstands', htext'⟩ := ih hstands
      refine ⟨w', fs', content', ?_, htarget'.trans htarget, hstands', ?_⟩
      · rw [writeAll, hwrite]
        exact hrest
      · rw [htext', htext, List.flatMap_cons, List.append_assoc]

end Log.Writer

/-! ## Logs of replays -/

namespace Replay

/-- What holds of the entry of every decision holds of all entries of a replay. -/
theorem forall_entries_run {e : Evaluator} {P : Entry → Prop} {stamps : ℕ → Stamp}
    (h : ∀ stamp q, P (Entry.of stamp q (e.judge q))) (bytes : List UInt8) :
    ∀ en ∈ (run e stamps bytes).entries, P en := by
  have htake : ∀ (r : Replay) line, (∀ en ∈ r.entries, P en) →
      ∀ en ∈ (r.take e stamps line).entries, P en := by
    intro r line hr
    cases hparse : parse line with
    | error f => rwa [take_malformed hparse]
    | ok q? =>
        cases q? with
        | none => rwa [take_comment hparse]
        | some q =>
            rw [take_request hparse]
            simpa [entries, or_imp, forall_and, h] using hr
  have hall : ∀ (lines : List (List UInt8)) (r : Replay), (∀ en ∈ r.entries, P en) →
      ∀ en ∈ (takeAll e stamps r lines).entries, P en := by
    intro lines
    induction lines with
    | nil => exact fun r hr => hr
    | cons line lines ih =>
        intro r hr
        rw [takeAll]
        cases Utf8.decode line with
        | error f => exact hr
        | ok cs => exact ih _ (htake r cs hr)
  exact hall _ {} (by simp [entries])

/-- Decisions for a policy that was read omit stages under their own names only. -/
theorem isNamed_of_mem_entries {p : Policy} (hp : p.Decoded) (stamps : ℕ → Stamp)
    (bytes : List UInt8) : ∀ e ∈ (run (.ofPolicy p) stamps bytes).entries,
      ∀ s ∈ e.verdict.omitStages, s.IsNamed := by
  refine forall_entries_run (fun stamp q s hs => ?_) bytes
  rw [Entry.of, Policy.omitStages_of_judge, List.mem_eraseDups, List.mem_append] at hs
  rcases hs with hs | hs
  · exact hp.hasNamedStages.general s hs
  · exact hp.hasNamedStages.stagesAt _ s hs

end Replay

namespace Log.Writer

/-- Every entry is written as a line that reads back as the entry, its stages being read for their
names. That changes nothing in the entries of a policy that was read. And what is written to an
empty log reads back from there entry by entry. -/
theorem log_reads_back :
    (∀ e : Entry, e.Recordable → ReadsBack e ∧
      ∀ w fs content, Stands w fs content → ∃ w' fs' content', w.write e fs = (none, w', fs') ∧
        Stands w' fs' content' ∧
        content' ++ w'.collected = content ++ w.collected ++ lineBytes e) ∧
    (∀ e : Entry, (∀ s ∈ e.verdict.omitStages, ∀ n ∈ Stage.knownNames, s ≠ .other n) →
      e.byName = e) ∧
    (∀ p : Policy, p.Decoded → ∀ stamps bytes,
      ∀ e ∈ (Replay.run (.ofPolicy p) stamps bytes).entries,
        ∀ s ∈ e.verdict.omitStages, ∀ n ∈ Stage.knownNames, s ≠ .other n) ∧
    (∀ es : List Entry, (∀ e ∈ es, e.Recordable) → ∀ path fs w fs₁,
      start fs path = (.ok w, fs₁) → fs.BeginsWith w.target [] →
      ∃ w₁ fs₂ w₂ fs₃ content, w.writeAll es fs₁ = (none, w₁, fs₂) ∧
        w₁.flush fs₂ = (none, w₂, fs₃) ∧ fs₃.item? w.target = some (.file content) ∧
        (Replay.split content).map Entry.ofBytes = es.map fun e => .ok e.byName) := by
  refine ⟨fun e he => ⟨readsBack_of_recordable he, fun w fs content h => ?_⟩, fun e he => ?_,
    fun p hp stamps bytes e he s hs => ?_, fun es hes path fs w fs₁ hstart hempty => ?_⟩
  · obtain ⟨w', fs', content', hwrite, -, hstands, htext⟩ := write_spec h e
    exact ⟨w', fs', content', hwrite, hstands, htext⟩
  · exact Entry.byName_eq fun s hs => s.isNamed_iff.mpr (he s hs)
  · exact s.isNamed_iff.mp (Replay.isNamed_of_mem_entries hp stamps bytes e he s hs)
  · have hread : ∀ e ∈ es, ReadsBack e := fun e he => readsBack_of_recordable (hes e he)
    have hcollected : w.collected = [] := by
      obtain ⟨_, _, _, hcollected, _⟩ := openEnd_of_start hstart
      exact hcollected
    obtain ⟨w₁, fs₂, content₁, hwrite, htarget₁, hstands₁, htext⟩ :=
      writeAll_spec (stands_of_start hstart hempty) es
    obtain ⟨w₂, fs₃, hflush, htarget₂, hstands₂, -⟩ := flush_spec hstands₁
    refine ⟨w₁, fs₂, w₂, fs₃, content₁ ++ w₁.collected, hwrite, hflush, ?_, ?_⟩
    · rw [← htarget₁, ← htarget₂]
      exact hstands₂.file
    · rw [htext, hcollected, List.append_nil, List.nil_append, split_lines hread, List.map_map]
      exact List.map_congr_left fun e he => (hread e he).entry

/-- An entry with texts of several lines and a stage that is not the one of its name. -/
def oddEntry : Entry where
  stamp := .zero
  request := ⟨some "a\n\"b\\\x00é", "\t", .resource { type := "pods", name := "\n" }⟩
  verdict := ⟨.metadata, [.other "Panic", .other "Audit"], true⟩
  rule? := some 7

/-- An entry without a rule, for a path that looks like the end of a line and the start of another
one. -/
def pathEntry : Entry where
  stamp := .zero
  request := ⟨none, "get", .path "\"\x7d\n\x7b"⟩
  verdict := ⟨.none, [], false⟩
  rule? := none

theorem recordable_oddEntry : oddEntry.Recordable := by
  refine ⟨by cbv, by cbv, ?_⟩
  rintro i ⟨⟩
  decide

theorem recordable_pathEntry : pathEntry.Recordable := by
  refine ⟨by cbv, by cbv, ?_⟩
  rintro i ⟨⟩

theorem log_reads_back_odd :
    let es := [oddEntry, pathEntry, oddEntry]
    (∀ e ∈ es, e.Recordable) ∧ ∃ w₁ fs₂ w₂ fs₃ content,
      writeAll { target := ["home", "log"] } es (Files.empty.put ["home", "log"] (.file [])) =
        (none, w₁, fs₂) ∧ w₁.flush fs₂ = (none, w₂, fs₃) ∧
      fs₃.item? ["home", "log"] = some (.file content) ∧
      (Replay.split content).map Entry.ofBytes =
        [.ok { oddEntry with verdict := ⟨.metadata, [.panic, .other "Audit"], true⟩ },
          .ok pathEntry,
          .ok { oddEntry with verdict := ⟨.metadata, [.panic, .other "Audit"], true⟩ }] := by
  intro es
  have hes : ∀ e ∈ es, e.Recordable := by
    intro e he
    simp only [es, List.mem_cons, List.not_mem_nil, or_false] at he
    rcases he with rfl | rfl | rfl
    · exact recordable_oddEntry
    · exact recordable_pathEntry
    · exact recordable_oddEntry
  exact ⟨hes, log_reads_back.2.2.2 es hes "log" Files.empty { target := ["home", "log"] } _ rfl
    (.inr ⟨rfl, rfl⟩)⟩

end Log.Writer

end RequestAudit
