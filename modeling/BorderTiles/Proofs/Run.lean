import BorderTiles.Proofs.Document.Spelled
import BorderTiles.Proofs.Fractions
import BorderTiles.Proofs.Logged
import BorderTiles.Proofs.Settings
import BorderTiles.Proofs.Zooms
import BorderTiles.Run

/-!
# Run — bad settings

The settings of a request come out in one of three ways, and which one it is does not depend on the
inputs of the run:

* `Reports`: a fault in them is reported and the run stops, whatever its inputs are.
* `Proceeds`: the run goes on with them, and later its zooms are read as they were the first time.
* `Breaks`: a fault of a wrong type ends the run without a report.

`load_cases`, `baseSettings_cases` and `configured_cases` say which, step by step, and
`serve_cases` what the run makes of it: it breaks exactly if the settings file is `Misshapen`.
-/

namespace BorderTiles
namespace Run
variable {α : Type}
open CommandLine (Request)

/-! ### The settings file -/

/-- A file whose text is a document, but one that holds no settings. -/
def MisshapenText (text : Option String) : Prop :=
  ∃ t v, text = some t ∧ Value.parse t = .ok v ∧ Settings.Misshapen v

/-- The settings file of a request, if it gives one, holds no settings. -/
def Misshapen (files : Files α) (r : Request) : Prop :=
  ∃ path, given r.config = some path ∧ MisshapenText (files.settings path)

theorem isReported_of_value {fault : Fault} (h : fault.kind = .value) : isReported fault = true := by
  rw [isReported, h]

theorem isReported_faultAt (s : List Char) (flaw : Value.Flaw) (rest : List Char) :
    isReported (Value.faultAt s flaw rest) = true := by
  cases flaw <;> rfl

/-- What is wrong with a text that is no document is reported. -/
theorem isReported_of_parse {text : String} {fault : Fault} (h : Value.parse text = .error fault) :
    isReported fault = true := by
  unfold Value.parse at h
  dsimp only at h
  split at h
  · cases h
    exact isReported_faultAt _ _ _
  · split at h
    · cases h
      exact isReported_faultAt _ _ _
    · split at h
      · cases h
      · cases h
        exact isReported_faultAt _ _ _

theorem load_of_parse {text : String} {v : Value} (path : String) (h : Value.parse text = .ok v) :
    (Settings.load path (some text) : Logged α Settings) =
      Logged.ofExcept (Settings.defaults.merge v) >>= fun s =>
        Logged.note (.settingsLoaded path) >>= fun _ => Logged.pure s := by
  rw [Settings.load, h]
  rfl

/-- **A settings file** gives settings, or a fault that is reported, unless it is misshapen. -/
theorem load_cases (path : String) (text : Option String) :
    (MisshapenText text ∧ ∃ fault, (Settings.load path text : Logged α Settings) = ⟨[], .error fault⟩ ∧
      fault.kind = .type) ∨
    (¬ MisshapenText text ∧
      ((∃ fault, (Settings.load path text : Logged α Settings) = ⟨[], .error fault⟩ ∧
          isReported fault = true) ∨
        ∃ s, (Settings.load path text : Logged α Settings) = ⟨[.settingsLoaded path], .ok s⟩)) := by
  cases text with
  | none => exact .inr ⟨nofun, .inl ⟨_, rfl, rfl⟩⟩
  | some text =>
  cases hv : Value.parse text with
  | error fault =>
      refine .inr ⟨?_, .inl ⟨fault, by rw [Settings.load, hv]; rfl, isReported_of_parse hv⟩⟩
      rintro ⟨t, v, htext, hparse, -⟩
      cases htext
      cases hv.symm.trans hparse
  | ok v =>
      have hmisshapen : MisshapenText (some text) ↔ Settings.Misshapen v := by
        constructor
        · rintro ⟨t, w, htext, hparse, hw⟩
          cases htext
          cases hv.symm.trans hparse
          exact hw
        · exact fun h => ⟨text, v, rfl, hv, h⟩
      rw [hmisshapen, load_of_parse path hv]
      rcases Settings.merge_cases Settings.defaults v with
        ⟨hv, fault, hfault, hkind⟩ | ⟨hv, ⟨s, hs⟩ | ⟨fault, hfault, hkind⟩⟩
      · rw [hfault]
        exact .inl ⟨hv, fault, rfl, hkind⟩
      · rw [hs]
        exact .inr ⟨hv, .inr ⟨s, rfl⟩⟩
      · rw [hfault]
        exact .inr ⟨hv, .inl ⟨fault, rfl, isReported_of_value hkind⟩⟩

/-! ### The settings of a request -/

/-- The reports of settings that are read: none, or one if they come from a file. -/
def Loading (notices : List (Notice α)) : Prop :=
  notices = [] ∨ ∃ path, notices = [.settingsLoaded path]

theorem baseSettings_cases (files : Files α) (r : Request) :
    (Misshapen files r ∧ ∃ fault, baseSettings files r = ⟨[], .error fault⟩ ∧ fault.kind = .type) ∨
    (¬ Misshapen files r ∧
      ((∃ fault, baseSettings files r = ⟨[], .error fault⟩ ∧ isReported fault = true) ∨
        ∃ notices s, baseSettings files r = ⟨notices, .ok s⟩ ∧ Loading notices)) := by
  rw [baseSettings, Misshapen]
  cases given r.config with
  | none => exact .inr ⟨nofun, .inr ⟨[], _, rfl, .inl rfl⟩⟩
  | some path =>
      have hpath : (∃ p, some path = some p ∧ MisshapenText (files.settings p)) ↔
          MisshapenText (files.settings path) := by
        simp
      rw [hpath]
      rcases load_cases path (files.settings path) with hfile | ⟨hfile, hfault | ⟨s, hs⟩⟩
      · exact .inl hfile
      · exact .inr ⟨hfile, .inl hfault⟩
      · exact .inr ⟨hfile, .inr ⟨_, s, hs, .inr ⟨path, rfl⟩⟩⟩

/-- Zooms name levels or are a wrong value, be it one without a text. -/
theorem levels_cases (s : Settings) :
    (∃ fault, Generate.levels s = .error fault ∧ fault.kind = .value) ∨
      ∃ levels, Generate.levels s = .ok levels ∧ Zooms.Ascending levels := by
  rw [Generate.levels, Settings.spelled]
  rcases (s.get "zoom" .null).spelled_spec with ⟨-, hlong⟩ | ⟨-, text, htext⟩
  · rw [hlong]
    exact .inl ⟨_, rfl, rfl⟩
  · rw [htext]
    exact Zooms.parse_cases text

/-- **The settings of a request** are there and their zooms can be read, or a fault is reported, unless
the settings file is misshapen. -/
theorem configured_cases (files : Files α) (r : Request) :
    (Misshapen files r ∧ ∃ fault, configured files r = ⟨[], .error fault⟩ ∧ fault.kind = .type) ∨
    (¬ Misshapen files r ∧
      ((∃ notices fault, configured files r = ⟨notices ++ [.invalidSettings fault], .ok none⟩ ∧
          Loading notices) ∨
        ∃ notices s levels, configured files r = ⟨notices, .ok (some s)⟩ ∧ Loading notices ∧
          Generate.levels s = .ok levels ∧ Zooms.Ascending levels)) := by
  rw [configured, configure]
  rcases baseSettings_cases files r with
    ⟨hfile, fault, hbase, hkind⟩ | ⟨hfile, ⟨fault, hbase, hreported⟩ | ⟨notices, s, hbase, hloading⟩⟩
  · refine .inl ⟨hfile, fault, ?_, hkind⟩
    rw [hbase]
    have hreported : isReported fault = false := by rw [isReported, hkind]
    simp [bind, Logged.bind, hreported]
  · refine .inr ⟨hfile, .inl ⟨[], fault, ?_, .inl rfl⟩⟩
    rw [hbase]
    simp [bind, Logged.bind, hreported]
  · rw [hbase]
    rcases levels_cases (withOptions s r) with
      ⟨fault, hlevels, hkind⟩ | ⟨levels, hlevels, hascending⟩
    · refine .inr ⟨hfile, .inl ⟨notices, fault, ?_, hloading⟩⟩
      have hreported := isReported_of_value hkind
      simp [bind, Logged.bind, Logged.ofExcept, hlevels, hreported]
    · refine .inr ⟨hfile, .inr ⟨notices, withOptions s r, levels, ?_, hloading, hlevels, hascending⟩⟩
      simp [bind, Logged.bind, Logged.ofExcept, hlevels, pure, Logged.pure]

theorem configured_congr {files files' : Files α} (h : files'.settings = files.settings)
    (r : Request) : configured files' r = configured files r := by
  rw [configured, configured, configure, configure, baseSettings, baseSettings, h]

/-! ### The run -/

variable [Mercator α]

/-- A run of which the zooms are known. -/
def runAt {ρ : Type} (k : Kernel α ρ) (settings : Settings) (levels : List Int)
    (inputs : Generate.Inputs α) : Logged α (Generate.Product α) := do
  let drawn ← Generate.features k settings inputs
  let _ ← .ofExcept (settings.whole "max_workers_tiles")
  let pyramid ← Tile.Pyramid.write k drawn levels
  return ⟨drawn.length, levels, pyramid⟩

/-- Zooms that could be read are read again as the same levels. -/
theorem run_eq_runAt {ρ : Type} (k : Kernel α ρ) {settings : Settings} {levels : List Int}
    (h : Generate.levels settings = .ok levels) (inputs : Generate.Inputs α) :
    Generate.run k settings inputs = runAt k settings levels inputs := by
  rw [Generate.run, h]
  rfl

/-- A fault in the settings is reported, and whatever the inputs are, nothing is read of them. -/
def Reports (files : Files α) (r : Request) : Prop :=
  ∃ notices fault, Loading notices ∧ ∀ (ρ : Type) (k : Kernel α ρ) (files' : Files α) extract,
    files'.settings = files.settings → files'.extract r.input = some extract →
      serve k files' r = ⟨notices ++ [.invalidSettings fault], .ok (.stop 1)⟩

/-- The run goes on with settings of which the zooms name levels, and these levels it draws. -/
def Proceeds (files : Files α) (r : Request) : Prop :=
  ∃ notices s levels, Loading notices ∧ Generate.levels s = .ok levels ∧ Zooms.Ascending levels ∧
    ∀ (ρ : Type) (k : Kernel α ρ),
      (∀ (files' : Files α) extract, files'.settings = files.settings →
        files'.extract r.input = some extract → serve k files' r =
          ⟨notices ++ (produce k files' r s extract).notices, (produce k files' r s extract).result⟩) ∧
      ∀ inputs, Generate.run k s inputs = runAt k s levels inputs

/-- A fault of a wrong type ends the run, and nothing is reported. -/
def Breaks (files : Files α) (r : Request) : Prop :=
  ∃ fault, fault.kind = .type ∧ ∀ (ρ : Type) (k : Kernel α ρ) (files' : Files α) extract,
    files'.settings = files.settings → files'.extract r.input = some extract →
      serve k files' r = ⟨[], .error fault⟩

theorem serve_of_extract {ρ : Type} (k : Kernel α ρ) {files : Files α} {r : Request}
    {extract : Extract α} (h : files.extract r.input = some extract) :
    serve k files r = configured files r >>= fun s? =>
      match s? with
      | none => Logged.pure (.stop 1)
      | some s => produce k files r s extract := by
  rw [serve, h]
  rfl

/-- **Bad settings are reported or do no harm, unless their file is misshapen**: then the run breaks. -/
theorem serve_cases (files : Files α) (r : Request) :
    (Misshapen files r ∧ Breaks files r) ∨
      (¬ Misshapen files r ∧ (Reports files r ∨ Proceeds files r)) := by
  rcases configured_cases files r with ⟨hfile, fault, hconfigured, hkind⟩ |
    ⟨hfile, ⟨notices, fault, hconfigured, hloading⟩ |
      ⟨notices, s, levels, hconfigured, hloading, hlevels, hascending⟩⟩
  · refine .inl ⟨hfile, fault, hkind, fun ρ k files' extract hsettings hextract => ?_⟩
    rw [serve_of_extract k hextract, configured_congr hsettings, hconfigured]
    rfl
  · refine .inr ⟨hfile, .inl ⟨notices, fault, hloading, fun ρ k files' extract hsettings hextract => ?_⟩⟩
    rw [serve_of_extract k hextract, configured_congr hsettings, hconfigured]
    simp [bind, Logged.bind, Logged.pure]
  · refine .inr ⟨hfile, .inr ⟨notices, s, levels, hloading, hlevels, hascending, fun ρ k => ⟨?_, ?_⟩⟩⟩
    · intro files' extract hsettings hextract
      rw [serve_of_extract k hextract, configured_congr hsettings, hconfigured]
      rfl
    · exact run_eq_runAt k hlevels

/-- An input without borders, and a settings file. -/
def settingsOnly (text : String) : Files Rat where
  extract _ := some ⟨fun _ => none, [], []⟩
  settings _ := some text
  generalised _ := none

/-- A request with a settings file and a zoom. -/
def withSettings : Request where
  input := "extract"
  output := "tiles"
  config := some "settings"
  zoom := some "5"

/-- A settings file that holds null ends the run: the fault is not reported, and it is not harmless. -/
theorem null_settings_break :
    serve Kernel.upright (settingsOnly "null") withSettings =
        ⟨[], .error (.notCollection "NoneType")⟩ ∧
      ¬ Reports (settingsOnly "null") withSettings ∧
      ¬ Proceeds (settingsOnly "null") withSettings := by
  have hserve : serve Kernel.upright (settingsOnly "null") withSettings =
      ⟨[], .error (.notCollection "NoneType")⟩ := rfl
  refine ⟨hserve, ?_, ?_⟩
  · rintro ⟨notices, fault, -, hreports⟩
    have hresult := congrArg Logged.result
      (hserve.symm.trans (hreports _ Kernel.upright _ _ rfl rfl))
    cases hresult
  · rintro ⟨notices, s, levels, -, -, -, hproceeds⟩
    have hnotices := congrArg Logged.notices
      (hserve.symm.trans ((hproceeds _ Kernel.upright).1 _ _ rfl rfl))
    -- whoever goes on says at once what is read
    simp [produce, Logged.note_bind] at hnotices

end Run
end BorderTiles
