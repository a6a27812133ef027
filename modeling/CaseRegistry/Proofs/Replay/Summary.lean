import CaseRegistry.Proofs.Format.Following
import CaseRegistry.Proofs.Sync.Retry
import CaseRegistry.Replay.Program

/-! What a replay prints.

What is loaded can be written and read, and the cycles keep it so (`Succeeds.isKept`). The summary
is put together from numbers of 64 bits, while fees have 128, whether they come from the file of
cases or from an operation of a block. So once the cycles have succeeded, the program prints a
summary that lists the stored cases just as long as no fee or count takes more than 64 bits, and
gives up otherwise (`ending_of_replay`, `dear_case_not_printed`). -/
namespace CaseRegistry

open Json

/-! ### Numbers of 64 bits -/

namespace Replay

/-- A number that can be read and printed. -/
def IsPrintable (n : Number) : Prop := n.IsReadable ∧ Report.IsPlain n

theorem isPlain_nat {n : Nat} : Report.IsPlain (.integer n) ↔ n < 2 ^ 64 := by
  show decide (n < Nat.pow 2 64) = true ↔ _
  simp

theorem admits_isPrintable : Format.Admits IsPrintable (2 ^ 64) where
  counts fits := ⟨Number.isReadable_integer (Nat.lt_trans fits (by decide)), isPlain_nat.2 fits⟩
  amounts fits := ⟨fun printable => isPlain_nat.1 printable.2, fun below =>
    ⟨Number.isReadable_integer fits, isPlain_nat.2 below⟩⟩
  le := by decide

end Replay

/-! ### The stores -/

namespace Memory

/-- One case for each identifier, and cases and blocks such as they are written and read. -/
structure IsKept (m : Memory) : Prop where
  distinct : m.repository.ids.Nodup
  cases : m.repository.Fits (2 ^ 128)
  blocks : ∀ b ∈ m.chain.blocks, b.Fits Number.IsReadable (2 ^ 128) 124

variable {m m' : Memory} {config : SyncConfig} {outcome : SyncOutcome}

theorem IsKept.of_syncToHead (kept : m.IsKept)
    (ran : (backend.syncToHead config).run m = (.ok outcome, m')) : m'.IsKept := by
  rcases Nat.lt_trichotomy (m.startOf config) m.chain.head with below | at_head | above
  · obtain ⟨_, _, _, r, rfl, rfl, rfl, rfl, follows, _⟩ := syncToHead_ok below ran
    exact
      { distinct := follows.ids ▸ kept.distinct
        cases := follows.fits kept.distinct (Chain.fits_events kept.blocks _ _) kept.cases
        blocks := kept.blocks }
  · rw [syncToHead_at_head at_head] at ran
    obtain ⟨_, rfl⟩ := Prod.mk.inj ran
    exact kept
  · rw [syncToHead_above_head above] at ran
    obtain ⟨_, rfl⟩ := Prod.mk.inj ran
    exact { kept with }

end Memory

namespace Replay

variable {config : SyncConfig} {args : Arguments} {env : Environment} {files : Files}
  {outcome : SyncOutcome} {s s' : Synchronizer Memory}

theorem isKept_of_cycle (kept : s.store.IsKept)
    (ran : (Synchronizer.cycle Memory.backend config).run s = (.ok outcome, s')) :
    s'.store.IsKept := by
  rw [Synchronizer.run_cycle] at ran
  obtain ⟨result, rfl⟩ := Prod.mk.inj ran
  exact kept.of_syncToHead (Prod.ext result rfl)

theorem isKept_of_cycles (kept : s.store.IsKept)
    (ran : (cycles config).run s = (.ok outcome, s')) : s'.store.IsKept := by
  obtain ⟨first, s₁, ran₁, ran⟩ := Action.run_bind_eq_ok.mp ran
  have kept₁ := isKept_of_cycle kept ran₁
  split at ran
  · exact isKept_of_cycle kept₁ ran
  · obtain ⟨_, rfl⟩ := Prod.mk.inj ran
    exact kept₁

theorem isKept_load {cases : List Case} {blocks : List LedgerBlock} (stream : String)
    (checkpoint : Option Nat) (cases_fit : ∀ c ∈ cases, c.Fits (2 ^ 128))
    (blocks_fit : ∀ b ∈ blocks, b.Fits Number.IsReadable (2 ^ 128) 124) :
    (load cases blocks stream checkpoint).IsKept where
  distinct := Repository.nodup_ids_insertAll (r := .empty) List.nodup_nil cases
  cases := Repository.fits_insertAll (r := .empty) (List.forall_mem_nil _) cases_fit
  blocks b mem := by
    have pushed : (load cases blocks stream checkpoint).chain.blocks = blocks.reverse :=
      (Chain.blocks_pushAll .empty blocks).trans (List.append_nil _)
    rw [pushed] at mem
    exact blocks_fit b (List.mem_reverse.1 mem)

/-! ### The files -/

/-- The cases to start from, if arguments name a file of them. -/
def startingCases (args : Arguments) (files : Files) : Except Failure (List Case) :=
  match args.cases with
  | some path => readCases files path
  | none => .ok []

theorem fits_startingCases {cases : List Case} (read : startingCases args files = .ok cases) :
    ∀ c ∈ cases, c.Fits (2 ^ 128) := by
  have lawful : (Codec.list Format.caseRecord).Lawful Number.IsReadable 127 _ :=
    .list (Format.lawful_caseRecord Format.admits_isReadable)
  unfold startingCases at read
  split at read
  · next path _ =>
    obtain ⟨text, _, read⟩ := bind_eq_ok.mp read
    split at read
    · next cases found =>
      cases read
      exact lawful.fits_of_ofText? found
    · cases read
  · cases read
    exact List.forall_mem_nil _

theorem fits_readLines {path : String} {n : Nat} {lines : List String} {blocks : List LedgerBlock}
    (read : readLines path n lines = .ok blocks) :
    ∀ b ∈ blocks, b.Fits Number.IsReadable (2 ^ 128) 124 := by
  have lawful : Format.ledgerBlock.Lawful Number.IsReadable 127 _ :=
    Format.lawful_ledgerBlock Format.admits_isReadable
  induction lines generalizing n blocks with
  | nil =>
    cases read
    exact List.forall_mem_nil _
  | cons line rest ih =>
    rw [readLines] at read
    split at read
    · exact ih read
    · split at read
      · next block found =>
        obtain ⟨others, behind, rfl⟩ := map_eq_ok.mp read
        exact List.forall_mem_cons.2 ⟨lawful.fits_of_ofText? found, ih behind⟩
      · cases read

theorem fits_readBlocks {path : String} {blocks : List LedgerBlock}
    (read : readBlocks files path = .ok blocks) :
    ∀ b ∈ blocks, b.Fits Number.IsReadable (2 ^ 128) 124 := by
  obtain ⟨text, _, read⟩ := bind_eq_ok.mp read
  exact fits_readLines read

/-! ### The report -/

/-- The files are read, and the cycles over what is in them succeed. -/
inductive Succeeds (args : Arguments) (env : Environment) (files : Files) (outcome : SyncOutcome)
    (s : Synchronizer Memory) : Prop
  | intro {path : String} {config : SyncConfig} {cases : List Case} {blocks : List LedgerBlock}
      (named : args.blocks = some path) (configured : args.config? env = some config)
      (cases_read : startingCases args files = .ok cases)
      (blocks_read : readBlocks files path = .ok blocks)
      (ran : (cycles config).run (.new (load cases blocks config.stream args.checkpoint)) =
        (.ok outcome, s))

theorem Succeeds.isKept (h : Succeeds args env files outcome s) : s.store.IsKept := by
  obtain ⟨_, _, cases_read, blocks_read, ran⟩ := h
  exact isKept_of_cycles
    (isKept_load _ _ (fits_startingCases cases_read) (fits_readBlocks blocks_read)) ran

theorem list_all (r : Repository) : r.list .all = r.cases :=
  List.filter_eq_self.2 fun c _ => by simp [CaseFilter.Matches, CaseFilter.all]

theorem report_eq {path : String} {config : SyncConfig} (named : args.blocks = some path)
    (configured : args.config? env = some config) :
    report args env files = (do
      let cases ← startingCases args files
      let blocks ← readBlocks files path
      (run config args.checkpoint cases blocks).mapError .sync) := by
  simp only [report, named, configured, startingCases]
  cases args.cases <;> rfl

theorem run_eq_ok {r : Report} {checkpoint : Option Nat} {cases : List Case}
    {blocks : List LedgerBlock} : run config checkpoint cases blocks = .ok r ↔
      ∃ outcome s, (cycles config).run (.new (load cases blocks config.stream checkpoint)) =
        (.ok outcome, s) ∧ ⟨outcome, s.stats, s.store.repository.cases⟩ = r := by
  unfold run
  split
  · next ran => simp [ran, list_all]
  · next ran => simp [ran]

/-- A report comes from a run that succeeds, and tells what it leaves. -/
theorem report_eq_ok {r : Report} : report args env files = .ok r ↔
    ∃ outcome s, Succeeds args env files outcome s ∧
      ⟨outcome, s.stats, s.store.repository.cases⟩ = r := by
  constructor
  · intro reported
    cases named : args.blocks with
    | none =>
      rw [report, named] at reported
      cases reported
    | some path =>
      cases configured : args.config? env with
      | none =>
        simp only [report, named, configured] at reported
        cases reported
      | some config =>
        simp only [report_eq named configured, bind_eq_ok, mapError_eq_ok, run_eq_ok] at reported
        obtain ⟨cases, cases_read, blocks, blocks_read, outcome, s, ran, told⟩ := reported
        exact ⟨outcome, s, .intro named configured cases_read blocks_read ran, told⟩
  · rintro ⟨outcome, s, ⟨named, configured, cases_read, blocks_read, ran⟩, told⟩
    simp only [report_eq named configured, bind_eq_ok, mapError_eq_ok, run_eq_ok]
    exact ⟨_, cases_read, _, blocks_read, outcome, s, ran, told⟩

/-! ### The summary -/

namespace Report

/-- The counts and all fees of a report have 64 bits. -/
structure IsSmall (r : Report) : Prop where
  blocksProcessed : r.stats.blocksProcessed < 2 ^ 64
  operationsApplied : r.stats.operationsApplied < 2 ^ 64
  operationsSkipped : r.stats.operationsSkipped < 2 ^ 64
  fees : ∀ c ∈ r.cases, c.ChargesBelow (2 ^ 64)

variable {r : Report}

theorem mem_numbers_summary {n : Number} :
    n ∈ r.summary.numbers ↔
      n = .integer r.stats.blocksProcessed ∨ n = .integer r.stats.operationsApplied ∨
        n = .integer r.stats.operationsSkipped ∨
        ∃ c ∈ r.cases, n ∈ (Format.caseRecord.write c).numbers := by
  simp [summary, statsSummary, Json.numbers, numbersOfFields, mem_numbersOfElements, Codec.list, Json.nat,
    Json.integer]

/-- With small numbers only, all of the summary is such as can be printed. -/
theorem IsSmall.fitsIn (small : r.IsSmall) (fits : ∀ c ∈ r.cases, c.Fits (2 ^ 128)) :
    r.summary.FitsIn IsPrintable 127 := by
  have count {n : Nat} (below : n < 2 ^ 64) : (Json.nat n).FitsIn IsPrintable 125 :=
    .number (admits_isPrintable.counts below)
  have lawful : (Codec.list Format.caseRecord).Lawful IsPrintable 126 _ :=
    .list (Format.lawful_caseRecord admits_isPrintable)
  have cases : ((Codec.list Format.caseRecord).write r.cases).FitsIn IsPrintable 126 :=
    lawful.within fun c mem => (fits c mem).narrow (small.fees c mem)
  have stats : (statsSummary r.stats).FitsIn IsPrintable 126 := by
    refine .object ?_
    simp only [List.forall_mem_cons]
    exact ⟨count small.blocksProcessed, count small.operationsApplied, count small.operationsSkipped,
      List.forall_mem_nil _⟩
  refine .object ?_
  simp only [List.forall_mem_cons]
  exact ⟨.string _, stats, cases, List.forall_mem_nil _⟩

/-- Just the reports with small numbers are printed. -/
theorem print?_isSome_iff (fits : ∀ c ∈ r.cases, c.Fits (2 ^ 128)) : r.print?.isSome ↔ r.IsSmall := by
  have printed : r.print?.isSome ↔ ∀ n ∈ r.summary.numbers, IsPlain n := by
    unfold print?
    split <;> simp_all
  rw [printed]
  constructor
  · intro plain
    have count {n : Nat} (counted : .integer n ∈ r.summary.numbers) : n < 2 ^ 64 :=
      isPlain_nat.1 (plain _ counted)
    refine ⟨count ?_, count ?_, count ?_, fun c mem => ?_⟩
    · exact mem_numbers_summary.2 (.inl rfl)
    · exact mem_numbers_summary.2 (.inr (.inl rfl))
    · exact mem_numbers_summary.2 (.inr (.inr (.inl rfl)))
    · -- The case is what is read from a value with small numbers only.
      have written : Format.caseRecord.Lawful Number.IsReadable 7 _ :=
        Format.lawful_caseRecord Format.admits_isReadable
      have read : Format.caseRecord.Lawful IsPrintable 7 _ := Format.lawful_caseRecord admits_isPrintable
      have within := written.within (fits c mem)
      have small : (Format.caseRecord.write c).FitsIn IsPrintable 7 := within.of_numbers fun n among =>
        ⟨within.of_mem_numbers n among,
          plain n (mem_numbers_summary.2 (.inr (.inr (.inr ⟨c, mem, among⟩))))⟩
      exact (read.fits small (written.reads (fits c mem) rearranges_id)).chargesBelow
  · exact fun small n mem => ((small.fitsIn fits).of_mem_numbers n mem).2

end Report

/-- The cases that a printed summary lists. -/
def listedCases? (text : String) : Option (List Case) :=
  (ofString? text).bind fun summary => (summary.get? "cases").bind (Codec.list Format.caseRecord).read

theorem get?_canonical_summary (r : Report) :
    r.summary.canonical.get? "cases" = some ((Codec.list Format.caseRecord).write r.cases).canonical := by
  rfl

theorem listedCases?_print {r : Report} {text : String} (fits : ∀ c ∈ r.cases, c.Fits (2 ^ 128))
    (printed : r.print? = some text) : listedCases? text = some r.cases := by
  have small : r.IsSmall := (Report.print?_isSome_iff fits).1 (by rw [printed]; rfl)
  have within := small.fitsIn fits
  have readable : r.summary.FitsIn Number.IsReadable 127 :=
    within.of_numbers fun n mem => (within.of_mem_numbers n mem).1
  have lawful : (Codec.list Format.caseRecord).Lawful Number.IsReadable 126 _ :=
    .list (Format.lawful_caseRecord Format.admits_isReadable)
  unfold Report.print? at printed
  split at printed
  · cases printed
    -- The summary is printed with ordered fields, and codecs read a value so rearranged.
    rw [listedCases?, ofString?_pretty readable.canonical, Option.bind_some, get?_canonical_summary,
      Option.bind_some, lawful.reads fits rearranges_canonical]
  · cases printed

/-! ### The program -/

variable {options : List String} {r : Report}

theorem program_of_print {text : String} (read : Arguments.read options = .ok (some args))
    (reported : report args env files = .ok r) (printed : r.print? = some text) :
    program options env files = .summary text args.output := by
  simp only [program, read, reported, printed]

theorem program_of_no_print (read : Arguments.read options = .ok (some args))
    (reported : report args env files = .ok r) (large : r.print? = none) :
    program options env files = .aborted := by
  simp only [program, read, reported, large]

/-- The program gives up in this way only when everything went well until then. -/
theorem succeeds_of_aborted (aborted : program options env files = .aborted) :
    ∃ args outcome s, Arguments.read options = .ok (some args) ∧
      Succeeds args env files outcome s := by
  unfold program at aborted
  split at aborted
  · cases aborted
  · cases aborted
  · next args read =>
    split at aborted
    · cases aborted
    · next r reported =>
      obtain ⟨outcome, s, done, _⟩ := report_eq_ok.1 reported
      exact ⟨args, outcome, s, read, done⟩

/-- Where the files are read and the cycles over them succeed, the program ends with a summary that
lists the stored cases if all fees and counts have 64 bits, and gives up if not. -/
theorem ending_of_replay (read : Arguments.read options = .ok (some args))
    (done : Succeeds args env files outcome s) :
    let stored := s.store.repository.cases
    (Report.IsSmall ⟨outcome, s.stats, stored⟩ →
      ∃ text, program options env files = .summary text args.output ∧
        listedCases? text = some stored) ∧
    (¬Report.IsSmall ⟨outcome, s.stats, stored⟩ → program options env files = .aborted) := by
  intro stored
  have fits : ∀ c ∈ stored, c.Fits (2 ^ 128) := done.isKept.cases
  have reported := report_eq_ok.2 ⟨outcome, s, done, rfl⟩
  have printed := Report.print?_isSome_iff (r := ⟨outcome, s.stats, stored⟩) fits
  refine ⟨fun small => ?_, fun large => ?_⟩
  · obtain ⟨text, found⟩ := Option.isSome_iff_exists.1 (printed.2 small)
    exact ⟨text, program_of_print read reported found, listedCases?_print fits found⟩
  · exact program_of_no_print read reported (Option.not_isSome_iff_eq_none.1 (printed.not.2 large))

end Replay

/-! ### A case that was charged for -/

namespace Sample

open Replay

def replayArguments : Arguments :=
  { Arguments.none with
    blocks := some "blocks.ndjson", cases := some "cases.json", nodeOwner := some "notary" }

def replayOptions : List String :=
  ["--blocks", "blocks.ndjson", "--cases", "cases.json", "--node-owner", "notary"]

/-- No blocks, and a draft that was charged for with a fee. -/
def replayFiles (fee : String) : Files
  | "blocks.ndjson" => some ""
  | "cases.json" => some ("[\x7b\"id\":\"00000004-0000-4000-8000-000000000004\",\"status\":\"DRAFT\"," ++
      "\"owner\":\"notary\",\"description\":\"an estate\",\"kind\":\"transaction\"," ++
      "\"creation_fees\":\x7b\"inclusion_fee\":" ++ fee ++ "\x7d\x7d]")
  | _ => none

end Sample

namespace Replay

/-- The largest fee that is printed. -/
theorem ending_of_estate :
    let files := Sample.replayFiles "18446744073709551615"
    ∃ outcome s text, Arguments.read Sample.replayOptions = .ok (some Sample.replayArguments) ∧
      Succeeds Sample.replayArguments (fun _ => none) files outcome s ∧
      Report.IsSmall ⟨outcome, s.stats, s.store.repository.cases⟩ ∧
      program Sample.replayOptions (fun _ => none) files = .summary text none ∧
      listedCases? text = some s.store.repository.cases := by
  intro files
  have runs : (report Sample.replayArguments (fun _ => none) files).toOption.any
      (·.print?.isSome) := by decide +kernel
  have read : Arguments.read Sample.replayOptions = .ok (some Sample.replayArguments) := rfl
  cases reported : report Sample.replayArguments (fun _ => none) files with
  | error e =>
    rw [reported] at runs
    cases runs
  | ok r =>
    rw [reported] at runs
    obtain ⟨outcome, s, done, rfl⟩ := report_eq_ok.1 reported
    have printed : Option.isSome (Report.print? _) := runs
    have small := (Report.print?_isSome_iff (by exact done.isKept.cases)).1 printed
    obtain ⟨text, ended, listed⟩ := (ending_of_replay read done).1 small
    exact ⟨_, s, text, read, done, small, ended, listed⟩

/-- With the next fee the cycles succeed and no summary is printed. -/
theorem dear_case_not_printed :
    let files := Sample.replayFiles "18446744073709551616"
    (∃ args outcome s, Arguments.read Sample.replayOptions = .ok (some args) ∧
      Succeeds args (fun _ => none) files outcome s) ∧
    program Sample.replayOptions (fun _ => none) files = .aborted := by
  intro files
  have aborted : program Sample.replayOptions (fun _ => none) files = .aborted := by decide +kernel
  exact ⟨succeeds_of_aborted aborted, aborted⟩

end Replay
end CaseRegistry
