import Mathlib
import RequestAudit.Program
import RequestAudit.Proofs.ArgumentLists
import RequestAudit.Proofs.DeclaredSettings
import RequestAudit.Proofs.GrowingFiles
import RequestAudit.Proofs.InterruptedRuns
import RequestAudit.Proofs.Utf8

/-!
# Where a run looks

The path of the policy and the path of the decision log may be given among the arguments, declared
in the settings file, or neither. Each of them is resolved by itself, and how a run ends is told by
what stands at these paths. A run depends on its arguments only by what these say, and it always
has requests to judge, unless it shows the rules.
-/

namespace RequestAudit.Program

open CommandLine (ArgumentList Saying given? optionsOf)
open Settings (Declared)

/-! ## Runs for given paths -/

section Paths

variable (stamps : ℕ → Stamp) (pace : Pace) (fs : Files) (input : List UInt8)

/-- How a run ends that reads its policy from one path and opens its log at another one. The log
that grows is what then stands at its path. -/
inductive Ends (policy log : String) (requests? : Option String) (dumpRules : Prop) :
    Outcome → Prop
  | unread {f : Files.Fault} (hread : fs.readText policy = .error f) :
      Ends policy log requests? dumpRules ⟨1, "", some (.policy (.unread policy f)), fs⟩
  | refused {text : String} {r : Policy.Refusal} (hread : fs.readText policy = .ok text)
      (hpolicy : Policy.ofYaml text = .error r) :
      Ends policy log requests? dumpRules ⟨1, "", some (.policy (.refused policy r)), fs⟩
  | shown {text : String} {p : Policy} (hread : fs.readText policy = .ok text)
      (hpolicy : Policy.ofYaml text = .ok p) (hdump : dumpRules) :
      Ends policy log requests? dumpRules
        ⟨0, Policy.rulesToYaml (Evaluator.ofPolicy p).rules, none, fs⟩
  | unopened {text path : String} {p : Policy} {f : Files.Fault}
      (hread : fs.readText policy = .ok text) (hpolicy : Policy.ofYaml text = .ok p)
      (hdump : ¬dumpRules) (hrequests : requests? = some path)
      (hopen : openRequests fs input path = .error f) :
      Ends policy log requests? dumpRules ⟨1, "", some (.requests path f), fs⟩
  | unlogged {text path : String} {p : Policy} {stream : Stream} {f : Log.Fault} {opened : Files}
      (hread : fs.readText policy = .ok text) (hpolicy : Policy.ofYaml text = .ok p)
      (hdump : ¬dumpRules) (hrequests : requests? = some path)
      (hopen : openRequests fs input path = .ok stream)
      (hstart : Log.Recorder.start fs log = (.error f, opened)) :
      Ends policy log requests? dumpRules ⟨1, "", some (.log f), opened⟩
  | replayed {text path : String} {p : Policy} {stream : Stream} {r : Log.Recorder}
      {opened : Files} (hread : fs.readText policy = .ok text)
      (hpolicy : Policy.ofYaml text = .ok p) (hdump : ¬dumpRules)
      (hrequests : requests? = some path) (hopen : openRequests fs input path = .ok stream)
      (hstart : Log.Recorder.start fs log = (.ok r, opened))
      (hlog : opened.locate log = .ok r.writer.target) :
      Ends policy log requests? dumpRules
        (replay (Evaluator.ofPolicy p) stamps pace r opened stream)

end Paths

variable {stamps : ℕ → Stamp} {pace : Pace} {fs : Files} {input : List UInt8}

theorem locate_of_start {r : Log.Recorder} {opened : Files} {path : String}
    (h : Log.Recorder.start fs path = (.ok r, opened)) :
    opened.locate path = .ok r.writer.target := by
  obtain ⟨w, hwriter, rfl⟩ := Log.System.recorder_of_start h
  exact Log.Writer.locate_of_start hwriter

/-- A plan that has requests, or shows the rules, is followed at its own paths. -/
theorem Plan.ends_follow (plan : Plan) (h : plan.dumpRules = false → plan.requests?.isSome) :
    Ends stamps pace fs input plan.policy plan.log plan.requests? plan.dumpRules
      (plan.follow stamps pace fs input) := by
  cases hread : fs.readText plan.policy with
  | error f =>
      simp only [follow, Policy.load, hread]
      exact .unread hread
  | ok text =>
      cases hpolicy : Policy.ofYaml text with
      | error r =>
          simp only [follow, Policy.load, hread, hpolicy]
          exact .refused hread hpolicy
      | ok p =>
          cases hdump : plan.dumpRules with
          | true =>
              simp only [follow, Policy.load, hread, hpolicy, hdump, if_true]
              exact .shown hread hpolicy trivial
          | false =>
              obtain ⟨path, hrequests⟩ := Option.isSome_iff_exists.mp (h hdump)
              simp only [follow, Policy.load, hread, hpolicy, hdump, hrequests,
                Bool.false_eq_true, if_false]
              cases hopen : openRequests fs input path with
              | error f => exact .unopened hread hpolicy id rfl hopen
              | ok stream =>
                  rcases hstart : Log.Recorder.start fs plan.log with ⟨_ | r, opened⟩
                  · exact .unlogged hread hpolicy id rfl hopen hstart
                  · exact .replayed hread hpolicy id rfl hopen hstart (locate_of_start hstart)

theorem Plan.follow_of_ends {plan : Plan} {o : Outcome}
    (h : Ends stamps pace fs input plan.policy plan.log plan.requests? plan.dumpRules o) :
    plan.follow stamps pace fs input = o := by
  cases h with
  | unread hread => simp only [follow, Policy.load, hread]
  | refused hread hpolicy => simp only [follow, Policy.load, hread, hpolicy]
  | shown hread hpolicy hdump => simp only [follow, Policy.load, hread, hpolicy, hdump, if_true]
  | unopened hread hpolicy hdump hrequests hopen =>
      simp only [follow, Policy.load, hread, hpolicy, hdump, if_false, hrequests, hopen]
  | unlogged hread hpolicy hdump hrequests hopen hstart =>
      simp only [follow, Policy.load, hread, hpolicy, hdump, if_false, hrequests, hopen, hstart]
  | replayed hread hpolicy hdump hrequests hopen hstart =>
      simp only [follow, Policy.load, hread, hpolicy, hdump, if_false, hrequests, hopen, hstart]

theorem Plan.follow_eq_iff (plan : Plan) (h : plan.dumpRules = false → plan.requests?.isSome)
    (o : Outcome) : plan.follow stamps pace fs input = o ↔
      Ends stamps pace fs input plan.policy plan.log plan.requests? plan.dumpRules o := by
  constructor
  · rintro rfl
    exact plan.ends_follow h
  · exact follow_of_ends

/-- Once the log is open, nothing but the requests can fail a run. -/
theorem failure?_replay {e : Evaluator} {log : Log.Recorder} {stream : Stream} {f : Failure}
    (h : (replay e stamps pace log fs stream).failure? = some f) :
    (∃ g, f = .input g) ∨ ∃ g, f = .stream g := by
  cases stream with
  | unreadable g => exact .inr ⟨g, (Option.some.inj h).symm⟩
  | bytes bs =>
      simp only [replay] at h
      split at h
      · exact .inl ⟨_, (Option.some.inj h).symm⟩
      · cases h

section Ends

variable {policy log : String} {requests? : Option String} {dumpRules : Prop} {o : Outcome}

theorem Ends.policy_iff (h : Ends stamps pace fs input policy log requests? dumpRules o)
    (r : Policy.FileRefusal) :
    o.failure? = some (.policy r) ↔ Policy.load fs policy = .error r := by
  cases h with
  | unread hread => simp [Policy.load, hread]
  | refused hread hpolicy => simp [Policy.load, hread, hpolicy]
  | shown hread hpolicy => simp [Policy.load, hread, hpolicy]
  | unopened hread hpolicy => simp [Policy.load, hread, hpolicy]
  | unlogged hread hpolicy => simp [Policy.load, hread, hpolicy]
  | replayed hread hpolicy =>
      simp only [Policy.load, hread, hpolicy, reduceCtorEq, iff_false]
      intro hfailure
      rcases failure?_replay hfailure with ⟨_, hf⟩ | ⟨_, hf⟩
      · cases hf
      · cases hf

theorem Ends.failure?_ne (h : Ends stamps pace fs input policy log requests? dumpRules o) :
    o.failure? ≠ some .missingRequests := by
  intro hfailure
  cases h with
  | unread => cases hfailure
  | refused => cases hfailure
  | shown => cases hfailure
  | unopened => cases hfailure
  | unlogged => cases hfailure
  | replayed =>
      rcases failure?_replay hfailure with ⟨_, hf⟩ | ⟨_, hf⟩
      · cases hf
      · cases hf

end Ends

/-! ## Paths of a run -/

/-- The path of the settings file. -/
def settingsPath (xs : List Saying) : String := (given? xs .settings).getD "config.yaml"

/-- The path of the policy: what is given among the arguments comes before what is declared, and
that before the default. -/
def policyPath (xs : List Saying) (d : Declared) : String :=
  ((given? xs .policy).or d.policy?).getD "policy.yaml"

/-- The path of the decision log, in the same order. -/
def logPath (xs : List Saying) (d : Declared) : String :=
  ((given? xs .output).or d.logging.decisions?).getD "decisions.jsonl"

theorem Plan.of_settings (xs : List Saying) (d : Declared) :
    Plan.of (optionsOf xs) d.settings =
      ⟨policyPath xs d, logPath xs d, given? xs .requests, decide (.dumpRules ∈ xs)⟩ := by
  have hgetD : ∀ a b : Option String, ∀ c, a.getD (b.getD c) = (a.or b).getD c := by
    rintro (_ | _) b c <;> rfl
  simp only [of, optionsOf, Declared.settings, Declared.Logging.settings, hgetD, policyPath,
    logPath]

theorem parse_words (l : ArgumentList) :
    CommandLine.parse l.words = .ok (optionsOf l.sayings) :=
  CommandLine.parse_eq_ok_iff.mpr ⟨l, rfl, rfl⟩

theorem run_of_refusal {l : ArgumentList} {r : Settings.Refusal}
    (h : Declared.load fs (settingsPath l.sayings) = .error r) :
    run l.words stamps pace fs input = ⟨1, "", some (.settings r), fs⟩ := by
  have hsettings := Declared.load_settings fs (settingsPath l.sayings)
  rw [h] at hsettings
  change Settings.load fs (optionsOf l.sayings).settings = .error r at hsettings
  simp only [run, parse_words, runWith, hsettings]

theorem run_eq_iff {l : ArgumentList} {d : Declared} {notices : List Notice}
    (h : Declared.load fs (settingsPath l.sayings) = .ok (d, notices)) (o : Outcome) :
    run l.words stamps pace fs input = o ↔
      Ends stamps pace fs input (policyPath l.sayings d) (logPath l.sayings d)
        (given? l.sayings .requests) (.dumpRules ∈ l.sayings) o := by
  have hsettings := Declared.load_settings fs (settingsPath l.sayings)
  rw [h] at hsettings
  change Settings.load fs (optionsOf l.sayings).settings = .ok (d.settings, notices) at hsettings
  have hrequests : decide (.dumpRules ∈ l.sayings) = false →
      (given? l.sayings .requests).isSome := by
    intro hdump
    obtain ⟨path, hpath⟩ := CommandLine.exists_requests (parse_words l) hdump
    exact Option.isSome_iff_exists.mpr ⟨path, hpath⟩
  have hrun : run l.words stamps pace fs input = Plan.follow ⟨policyPath l.sayings d,
      logPath l.sayings d, given? l.sayings .requests, decide (.dumpRules ∈ l.sayings)⟩
      stamps pace fs input := by
    simp only [run, parse_words, runWith, hsettings, Plan.of_settings]
  rw [hrun, Plan.follow_eq_iff _ hrequests, decide_eq_true_eq]

/-- No accepted list lacks requests, unless it asks for the rules. -/
theorem run_never_misses (args : List String) :
    (run args stamps pace fs input).failure? ≠ some .missingRequests := by
  intro h
  cases hparse : CommandLine.parse args with
  | error r =>
      simp only [run, hparse] at h
      cases h
  | ok options =>
      obtain ⟨l, rfl, -⟩ := CommandLine.parse_eq_ok_iff.mp hparse
      cases hload : Declared.load fs (settingsPath l.sayings) with
      | error r =>
          rw [run_of_refusal hload] at h
          cases h
      | ok d => exact ((run_eq_iff hload _).mp rfl).failure?_ne h

/-- The accepted lists of arguments are the rows of parts that are complete. With every one of
them a run reads its policy and opens its log at the paths that the parts give, else at those that
the settings file declares, else at the defaults, whatever else is given or declared. It fails for
its policy just if there is none at that path. Lists whose parts say the same make the same run,
and none makes a run that lacks requests. -/
theorem run_resolved (stamps : ℕ → Stamp) (pace : Pace) (fs : Files) (input : List UInt8) :
    (∀ args options, CommandLine.parse args = .ok options ↔
      ∃ l : ArgumentList, l.words = args ∧ optionsOf l.sayings = options) ∧
    (∀ (l : ArgumentList) r, Declared.load fs (settingsPath l.sayings) = .error r →
      run l.words stamps pace fs input = ⟨1, "", some (.settings r), fs⟩) ∧
    (∀ (l : ArgumentList) d notices,
      Declared.load fs (settingsPath l.sayings) = .ok (d, notices) →
      (∀ o, run l.words stamps pace fs input = o ↔
        Ends stamps pace fs input (policyPath l.sayings d) (logPath l.sayings d)
          (given? l.sayings .requests) (.dumpRules ∈ l.sayings) o) ∧
      ∀ r, (run l.words stamps pace fs input).failure? = some (.policy r) ↔
        Policy.load fs (policyPath l.sayings d) = .error r) ∧
    (∀ l l' : ArgumentList, (∀ x, x ∈ l.sayings ↔ x ∈ l'.sayings) →
      run l.words stamps pace fs input = run l'.words stamps pace fs input) ∧
    (∀ args options, CommandLine.parse args = .ok options →
      options.requests?.isSome ∨ options.dumpRules) ∧
    ∀ args, (run args stamps pace fs input).failure? ≠ some .missingRequests := by
  refine ⟨fun _ _ => CommandLine.parse_eq_ok_iff, fun _ _ => run_of_refusal,
    fun l d notices h => ⟨run_eq_iff h, ((run_eq_iff h _).mp rfl).policy_iff⟩, fun l l' h => ?_,
    fun _ _ => CommandLine.complete_of_parse, run_never_misses⟩
  have hoptions : optionsOf l.sayings = optionsOf l'.sayings :=
    CommandLine.optionsOf_eq l.nodup l'.nodup h
  simp only [run, parse_words, hoptions]

/-! ## A policy and a log that are given -/

/-- The policy that the settings declare is missing, and there is one that looks like an option. -/
def partialFiles : Files :=
  (Files.empty.put ["home", "config.yaml"] (.file (Text.Utf8.encode
    "policy_file: declared.yaml\nlogging:\n  level: debug\n".toList))).put ["home", "--dump-rules"]
      (.file (Text.Utf8.encode "rules:\n- level: Metadata\n".toList))

theorem readText_of_read {path text : String}
    (h : fs.read path = .ok (Text.Utf8.encode text.toList)) : fs.readText path = .ok text := by
  simp only [Files.readText, h, bind, Except.bind, Text.Utf8.decode_encode, String.ofList_toList]

def partialSettings : Declared := { policy? := "declared.yaml", logging := { level? := "debug" } }

theorem load_partialFiles :
    Declared.load partialFiles "config.yaml" = .ok (partialSettings, []) := by
  have hhas : partialFiles.has "config.yaml" = true := rfl
  have htext : partialFiles.readText "config.yaml" =
      .ok "policy_file: declared.yaml\nlogging:\n  level: debug\n" := readText_of_read rfl
  have hdecode : Yaml.decodeText Declared.read
      "policy_file: declared.yaml\nlogging:\n  level: debug\n" = .ok partialSettings := by cbv
  simp only [Declared.load, hhas, htext, hdecode, if_true]

def plainPolicy : Policy := { rules := [{ level := .metadata }] }

theorem ofYaml_plainPolicy : Policy.ofYaml "rules:\n- level: Metadata\n" = .ok plainPolicy := by
  have hdecode : Yaml.decodeText Policy.read "rules:\n- level: Metadata\n" = .ok plainPolicy := by
    cbv
  rw [Policy.ofYaml, hdecode]
  rfl

def oneRequest : List UInt8 := Text.Utf8.encode "\x7b\"verb\":\"get\"\x7d\n".toList

def oneEntry : Entry := ⟨.zero, ⟨none, "get", .path ""⟩, ⟨.metadata, [], false⟩, some 0⟩

theorem run_plainPolicy :
    (Replay.run (.ofPolicy plainPolicy) (fun _ => .zero) oneRequest).fault? = none ∧
      (Replay.run (.ofPolicy plainPolicy) (fun _ => .zero) oneRequest).entries = [oneEntry] :=
  ⟨by cbv, by cbv⟩

/-- A list with a policy that looks like an option. -/
def joined : ArgumentList where
  parts := [.assignment .policy "--dump-rules" .longEquals (by decide) (by decide),
    .assignment .output "seen.jsonl" .shortJoined (by decide) (by decide),
    .assignment .requests "-" .short (by decide) (by decide)]
  ended := false
  nodup := by decide
  complete := .inl ⟨"-", by decide⟩

/-- Another list that says the same. -/
def rejoined : ArgumentList where
  parts := [.assignment .requests "-" .longEquals (by decide) (by decide),
    .assignment .output "seen.jsonl" .long (by decide) (by decide),
    .assignment .policy "--dump-rules" .shortJoined (by decide) (by decide)]
  ended := true
  nodup := by decide
  complete := .inl ⟨"-", by decide⟩

/-- A list without paths. -/
def bare : ArgumentList where
  parts := [.assignment .requests "-" .short (by decide) (by decide)]
  ended := false
  nodup := by decide
  complete := .inl ⟨"-", by decide⟩

/-- The given policy judges and the given log grows. Without them the declared policy is looked
for. -/
theorem run_resolved_joined :
    let o := run ["--policy=--dump-rules", "-oseen.jsonl", "-r", "-"] (fun _ => .zero) .settled
      partialFiles oneRequest
    o.exit = 0 ∧
    o.files.item? ["home", "seen.jsonl"] = some (.file (Log.Writer.lineBytes oneEntry)) ∧
    run ["--requests=-", "--output", "seen.jsonl", "-p--dump-rules", "--"] (fun _ => .zero)
      .settled partialFiles oneRequest = o ∧
    run ["-r", "-"] (fun _ => .zero) .settled partialFiles oneRequest =
      ⟨1, "", some (.policy (.unread "declared.yaml" .notFound)), partialFiles⟩ ∧
    ∃ options, CommandLine.parse ["--policy=--dump-rules", "-oseen.jsonl", "-r", "-"] =
      .ok options ∧ options.dumpRules = false ∧ (options.requests?.isSome ∨ options.dumpRules) := by
  obtain ⟨hparses, -, hruns, hsame, hcomplete, -⟩ :=
    run_resolved (fun _ => .zero) .settled partialFiles oneRequest
  have hwords : joined.words = ["--policy=--dump-rules", "-oseen.jsonl", "-r", "-"] := by decide
  have hwords' : rejoined.words =
      ["--requests=-", "--output", "seen.jsonl", "-p--dump-rules", "--"] := by decide
  have hbare : bare.words = ["-r", "-"] := by decide
  have hsayings : ∀ x, x ∈ rejoined.sayings ↔ x ∈ joined.sayings := by
    intro x
    have hreverse : rejoined.sayings = joined.sayings.reverse := rfl
    rw [hreverse, List.mem_reverse]
  have hstart : Log.Recorder.start partialFiles "seen.jsonl" =
      (.ok { writer := { target := ["home", "seen.jsonl"] } },
        partialFiles.put ["home", "seen.jsonl"] (.file [])) := rfl
  have hread : partialFiles.readText "--dump-rules" = .ok "rules:\n- level: Metadata\n" :=
    readText_of_read rfl
  have hrun := ((hruns joined _ _ load_partialFiles).1 _).mpr
    (.replayed hread ofYaml_plainPolicy (by decide) rfl rfl hstart (locate_of_start hstart))
  have hmissing := ((hruns bare _ _ load_partialFiles).1 _).mpr (.unread rfl)
  obtain ⟨hfault, hentries⟩ := run_plainPolicy
  obtain ⟨hexit, hlog⟩ := replay_finished hstart (.inr ⟨rfl, rfl⟩) hfault .settled
  rw [hentries, List.flatMap_singleton, List.nil_append] at hlog
  have hparse := (hparses joined.words _).mpr ⟨joined, rfl, rfl⟩
  rw [← hwords, ← hwords', ← hbare]
  refine ⟨?_, ?_, hsame rejoined joined hsayings, hmissing, _, hparse, by decide,
    hcomplete _ _ hparse⟩
  · rw [hrun]
    exact hexit
  · rw [hrun]
    exact hlog

end RequestAudit.Program
