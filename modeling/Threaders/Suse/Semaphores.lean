import Mathlib.Data.List.Forall2
import Threaders.Lib.FreshHeap
import Threaders.Lib.Word

/-!
# The semaphores of the configuration

`suse_config_load` reads the arrays of the configuration file and prints them with
`utils_array_to_string`, and `scheduler_init_semaphores` makes the semaphores of the arrays
later on.  A string is a block of the heap, and a `char**` the addresses in front of its
`NULL`.  The arrays themselves are never released.  What goes to the log is left out.

A function gives `none` where the code reads or releases a released string, follows a null
pointer, or copies a string over the end of its block.

## Main definitions

* `TSuseConfig`, `TSemaphore`, `SemGlobals` — the configuration, a semaphore, the variables.
* `utilsArrayToString` — the text of an array, whose strings it releases.
* `suseConfigLoad`, `schedulerInitSemaphores` — the two operations.
* `SemaphoresMatch` — the semaphores are those of the file.
-/

namespace Threaders.Suse

open Lib

/-- A C string, without its NUL. -/
abbrev Str := List UInt8

/-! ## The configuration -/

/-- A `t_config`: what the values of the file are read as. -/
structure TConfig (ρ : Type) where
  configGetIntValue : String → ℤ
  configGetArrayValue : String → List Str
  configGetDoubleValue : String → ρ

/-- `t_suse_config`. -/
structure TSuseConfig (ρ : Type) where
  listenPort : ℤ
  metricsTimer : ℤ
  maxMultiprog : ℤ
  semIds : List ℕ
  semInit : List ℕ
  semMax : List ℕ
  alphaSjf : ρ

/-- `t_semaphore`; the queue holds threads. -/
structure TSemaphore where
  id : ℕ
  value : ℤ
  maxValue : ℤ
  queue : List ℕ
  deriving DecidableEq, Repr

/-- The variables `suse_config` and `semphores`, and the strings on the heap. -/
structure SemGlobals (ρ : Type) where
  suseConfig : Option (TSuseConfig ρ)
  semphores : List TSemaphore
  heap : FreshHeap Str

variable {ρ : Type}

/-- `read_config`.  Each array comes with strings of its own. -/
def readConfig (configFile : TConfig ρ) (s : SemGlobals ρ) : SemGlobals ρ :=
  let (semIds, heap) := s.heap.allocAll (configFile.configGetArrayValue "SEM_IDS")
  let (semInit, heap) := heap.allocAll (configFile.configGetArrayValue "SEM_INIT")
  let (semMax, heap) := heap.allocAll (configFile.configGetArrayValue "SEM_MAX")
  { s with
    suseConfig := some
      { listenPort := configFile.configGetIntValue "LISTEN_PORT"
        metricsTimer := configFile.configGetIntValue "METRICS_TIMER"
        maxMultiprog := configFile.configGetIntValue "MAX_MULTIPROG"
        semIds := semIds
        semInit := semInit
        semMax := semMax
        alphaSjf := configFile.configGetDoubleValue "ALPHA_SJF" }
    heap := heap }

/-- The loop of `utils_array_to_string`: each string is appended, and released. -/
def arrayLoop (h : FreshHeap Str) (ret : Str) : List ℕ → Option (Str × FreshHeap Str)
  | [] => some (ret, h)
  | aux :: rest => do
      let text ← h.read aux
      let h ← h.free aux
      arrayLoop h (ret ++ text ++ if rest = [] then [] else [44]) rest

/-- `utils_array_to_string`: the strings in brackets, with commas between them. -/
def utilsArrayToString (h : FreshHeap Str) (array : List ℕ) : Option (Str × FreshHeap Str) :=
  (arrayLoop h [91] array).map fun (ret, h) => (ret ++ [93], h)

/-- `print_config`. -/
def printConfig (s : SemGlobals ρ) : Option (SemGlobals ρ) := do
  let c ← s.suseConfig
  let (_, heap) ← utilsArrayToString s.heap c.semIds
  let (_, heap) ← utilsArrayToString heap c.semInit
  let (_, heap) ← utilsArrayToString heap c.semMax
  return { s with heap := heap }

/-- `config_load`, with the `config_create` of the library.  Its `config_destroy` releases what
the file was parsed into, and none of the arrays. -/
def configLoad {σ : Type*} (configCreate : String → Option (TConfig ρ)) (path : Option String)
    (read : TConfig ρ → σ → σ) (print : σ → Option σ) (s : σ) : Option (ℤ × σ) :=
  match path with
  | none => some (-1, s)
  | some path =>
      match configCreate path with
      | none => some (-1, s)
      | some configFile => (print (read configFile s)).map fun s => (0, s)

/-- `CONFIG_FILE_PATH`. -/
def configFilePath : String := "suse.config"

/-- `suse_config_load`. -/
def suseConfigLoad (configCreate : String → Option (TConfig ρ)) (s : SemGlobals ρ) :
    Option (ℤ × SemGlobals ρ) :=
  configLoad configCreate (some configFilePath) readConfig printConfig s

/-! ## The semaphores -/

/-- `isspace` and `isdigit`. -/
def isSpace (b : UInt8) : Bool := b = 32 || (9 ≤ b && b ≤ 13)
def isDigit (b : UInt8) : Bool := 48 ≤ b && b ≤ 57

/-- `atoi`: blanks, a sign and digits as a `long`, which holds the nearest value to one out of
its range, and is cut to an `int`. -/
def atoi (str : Str) : ℤ :=
  let str := str.dropWhile isSpace
  let signed : Bool := str.head? = some 43 || str.head? = some 45
  let digits := (if signed then str.tail else str).takeWhile isDigit
  let n : ℤ := digits.foldl (fun n b => 10 * n + (b.toNat - 48 : ℤ)) 0
  let n := if str.head? = some 45 then -n else n
  toI32 (max (-2 ^ 63) (min n (2 ^ 63 - 1)))

/-- `sizeof(id)`: the size of a pointer. -/
def sizeofId : ℕ := 8

/-- `strcpy` into a block of the given size: the string and its NUL must fit. -/
def strcpy (size : ℕ) (src : Str) : Option Str := if src.length + 1 ≤ size then some src else none

/-- `semaphore_create`. -/
def semaphoreCreate (h : FreshHeap Str) (id : ℕ) (value maxValue : ℤ) :
    Option (TSemaphore × FreshHeap Str) := do
  let text ← h.read id
  let copy ← strcpy sizeofId text
  let (semId, h) := h.alloc copy
  return (⟨semId, value, maxValue, []⟩, h)

/-- The loop of `scheduler_init_semaphores`, which ends with the first array that does. -/
def initLoop (semphores : List TSemaphore) (h : FreshHeap Str) :
    List ℕ → List ℕ → List ℕ → Option (List TSemaphore × FreshHeap Str)
  | semId :: ids, init :: inits, max :: maxs => do
      let semInit ← h.read init
      let semMax ← h.read max
      let (sem, h) ← semaphoreCreate h semId (atoi semInit) (atoi semMax)
      initLoop (semphores ++ [sem]) h ids inits maxs
  | _, _, _ => some (semphores, h)

/-- `scheduler_init_semaphores`. -/
def schedulerInitSemaphores (s : SemGlobals ρ) : Option (SemGlobals ρ) := do
  let c ← s.suseConfig
  let (semphores, heap) ← initLoop [] s.heap c.semIds c.semInit c.semMax
  return { s with semphores := semphores, heap := heap }

example : atoi [32, 45, 52, 50, 120] = -42 := by decide

/-! ## What the configuration stands for -/

/-- The three arrays position by position, up to the end of the shortest. -/
def combine (ids inits maxs : List Str) : List (Str × ℤ × ℤ) :=
  List.zipWith3 (fun id init max => (id, atoi init, atoi max)) ids inits maxs

/-- A semaphore with the string of its id. -/
def valueOf (h : FreshHeap Str) (sem : TSemaphore) : Option (Str × ℤ × ℤ) :=
  (h.read sem.id).map fun id => (id, sem.value, sem.maxValue)

/-- The configuration is loaded, the semaphores are made, and they are those of the file. -/
def SemaphoresMatch (configCreate : String → Option (TConfig ρ)) (configFile : TConfig ρ)
    (s : SemGlobals ρ) : Prop :=
  ∃ s₁ s₂, suseConfigLoad configCreate s = some (0, s₁) ∧
    schedulerInitSemaphores s₁ = some s₂ ∧
    s₂.semphores.map (valueOf s₂.heap) =
      (combine (configFile.configGetArrayValue "SEM_IDS")
        (configFile.configGetArrayValue "SEM_INIT")
        (configFile.configGetArrayValue "SEM_MAX")).map some

/-! ## Printing an array -/

section Print
variable {h : FreshHeap Str} {ps : List ℕ} {vs : List Str}

/-- The loop of `utils_array_to_string` appends the strings with commas between them, and
releases all of them. -/
theorem arrayLoop_eq (hh : h.Holds ps vs) (hnodup : ps.Nodup) (ret : Str) :
    arrayLoop h ret ps = (h.freeAll ps).map fun h => (ret ++ [44].intercalate vs, h) := by
  induction ps generalizing h vs ret with
  | nil =>
      cases hh
      simp [arrayLoop, FreshHeap.freeAll, List.intercalate]
  | cons p ps ih =>
      cases hh with
      | @cons _ v _ vs hp htail =>
          obtain ⟨hps, hnodup⟩ := List.nodup_cons.1 hnodup
          obtain ⟨h₁, hfree, hread, -⟩ := FreshHeap.free_spec hp
          have htail₁ : h₁.Holds ps vs := by
            refine FreshHeap.Holds.congr htail fun q hq => ?_
            rw [hread, Function.update_of_ne (ne_of_mem_of_not_mem hq hps)]
          simp only [arrayLoop, FreshHeap.freeAll, hp, hfree, Option.bind_eq_bind,
            Option.bind_some, ih htail₁ hnodup]
          cases htail with
          | nil => simp [List.intercalate]
          | cons _ _ => simp [List.intercalate, List.append_assoc]

/-- `utils_array_to_string` of live strings, each in a block of its own: all of them are
released, and nothing else changes. -/
theorem utilsArrayToString_spec (hh : h.Holds ps vs) (hnodup : ps.Nodup) :
    ∃ h', utilsArrayToString h ps = some ([91] ++ [44].intercalate vs ++ [93], h') ∧
      (∀ p ∈ ps, h'.read p = none) ∧ ∀ p, p ∉ ps → h'.read p = h.read p := by
  obtain ⟨h', hfree, hnone, hother⟩ := FreshHeap.freeAll_spec hh hnodup
  refine ⟨h', ?_, hnone, hother⟩
  rw [utilsArrayToString, arrayLoop_eq hh hnodup, hfree]
  rfl

end Print

/-! ## Loading the configuration -/

/-- The arrays of the file stand on the heap, each string in a block of its own. -/
structure Loaded (configFile : TConfig ρ) (c : TSuseConfig ρ) (h : FreshHeap Str) : Prop where
  ids : h.Holds c.semIds (configFile.configGetArrayValue "SEM_IDS")
  inits : h.Holds c.semInit (configFile.configGetArrayValue "SEM_INIT")
  maxs : h.Holds c.semMax (configFile.configGetArrayValue "SEM_MAX")
  nodup_ids : c.semIds.Nodup
  nodup_inits : c.semInit.Nodup
  nodup_maxs : c.semMax.Nodup
  ids_inits : ∀ p ∈ c.semIds, p ∉ c.semInit
  ids_maxs : ∀ p ∈ c.semIds, p ∉ c.semMax
  inits_maxs : ∀ p ∈ c.semInit, p ∉ c.semMax

/-- The strings of the three arrays are all released. -/
structure Released (c : TSuseConfig ρ) (h : FreshHeap Str) : Prop where
  ids : ∀ p ∈ c.semIds, h.read p = none
  inits : ∀ p ∈ c.semInit, h.read p = none
  maxs : ∀ p ∈ c.semMax, h.read p = none

section Load
variable {configCreate : String → Option (TConfig ρ)} {configFile : TConfig ρ}
  {c : TSuseConfig ρ}

theorem readConfig_spec (configFile : TConfig ρ) (s : SemGlobals ρ) :
    ∃ c, (readConfig configFile s).suseConfig = some c ∧
      Loaded configFile c (readConfig configFile s).heap := by
  have hids := (s.heap.allocAll_spec (configFile.configGetArrayValue "SEM_IDS")).2.1
  have hinits := (FreshHeap.allocAll_spec
    (s.heap.allocAll (configFile.configGetArrayValue "SEM_IDS")).2
    (configFile.configGetArrayValue "SEM_INIT")).2.1
  refine ⟨_, rfl, ?_⟩
  constructor
  · exact (hids.allocAll _).allocAll _
  · exact hinits.allocAll _
  · exact (FreshHeap.allocAll_spec _ _).2.1
  · exact FreshHeap.nodup_allocAll _ _
  · exact FreshHeap.nodup_allocAll _ _
  · exact FreshHeap.nodup_allocAll _ _
  · exact hids.not_mem_allocAll _
  · exact (hids.allocAll _).not_mem_allocAll _
  · exact hinits.not_mem_allocAll _

/-- `print_config` releases every string of the three arrays. -/
theorem printConfig_spec {s : SemGlobals ρ} (hc : s.suseConfig = some c)
    (hl : Loaded configFile c s.heap) :
    ∃ h', printConfig s = some { s with heap := h' } ∧ Released c h' := by
  obtain ⟨h₁, hprint₁, hnone₁, hkeep₁⟩ := utilsArrayToString_spec hl.ids hl.nodup_ids
  have hinits₁ := hl.inits.congr fun p hp => hkeep₁ p fun hmem => hl.ids_inits p hmem hp
  have hmaxs₁ := hl.maxs.congr fun p hp => hkeep₁ p fun hmem => hl.ids_maxs p hmem hp
  obtain ⟨h₂, hprint₂, hnone₂, hkeep₂⟩ := utilsArrayToString_spec hinits₁ hl.nodup_inits
  have hmaxs₂ := hmaxs₁.congr fun p hp => hkeep₂ p fun hmem => hl.inits_maxs p hmem hp
  obtain ⟨h₃, hprint₃, hnone₃, hkeep₃⟩ := utilsArrayToString_spec hmaxs₂ hl.nodup_maxs
  refine ⟨h₃, by simp [printConfig, hc, hprint₁, hprint₂, hprint₃], ?_, ?_, hnone₃⟩
  · intro p hp
    rw [hkeep₃ p (hl.ids_maxs p hp), hkeep₂ p (hl.ids_inits p hp), hnone₁ p hp]
  · intro p hp
    rw [hkeep₃ p (hl.inits_maxs p hp), hnone₂ p hp]

/-- `suse_config_load` succeeds on every file, and leaves the arrays of the file with their
strings released. -/
theorem suseConfigLoad_spec (hfile : configCreate configFilePath = some configFile)
    (s : SemGlobals ρ) :
    ∃ s₁ c, suseConfigLoad configCreate s = some (0, s₁) ∧ s₁.suseConfig = some c ∧
      Released c s₁.heap ∧
      c.semIds.length = (configFile.configGetArrayValue "SEM_IDS").length ∧
      c.semInit.length = (configFile.configGetArrayValue "SEM_INIT").length ∧
      c.semMax.length = (configFile.configGetArrayValue "SEM_MAX").length := by
  obtain ⟨c, hc, hl⟩ := readConfig_spec configFile s
  obtain ⟨h', hprint, hreleased⟩ := printConfig_spec hc hl
  refine ⟨{ readConfig configFile s with heap := h' }, c, ?_, hc, hreleased,
    hl.ids.length_eq, hl.inits.length_eq, hl.maxs.length_eq⟩
  simp only [suseConfigLoad, configLoad, hfile, hprint, Option.map_some]

end Load

/-! ## Making the semaphores -/

section Init
variable {h h' : FreshHeap Str} {sem : TSemaphore} {id : ℕ} {text : Str}

/-- A semaphore gets an id of its own where the string is live and leaves room for the NUL in
the size of a pointer. -/
theorem semaphoreCreate_spec (hread : h.read id = some text) (value maxValue : ℤ) :
    (8 ≤ text.length ∧ semaphoreCreate h id value maxValue = none) ∨
      (text.length < 8 ∧ semaphoreCreate h id value maxValue =
        some (⟨h.next, value, maxValue, []⟩, (h.alloc text).2)) := by
  by_cases hlen : text.length < 8
  · right
    have hcopy : strcpy sizeofId text = some text := if_pos (Nat.succ_le_of_lt hlen)
    refine ⟨hlen, ?_⟩
    simp only [semaphoreCreate, hread, hcopy, Option.bind_eq_bind, Option.bind_some]
    rfl
  · left
    have hcopy : strcpy sizeofId text = none :=
      if_neg fun hle => hlen (Nat.lt_of_succ_le hle)
    refine ⟨Nat.not_lt.1 hlen, ?_⟩
    simp only [semaphoreCreate, hread, hcopy, Option.bind_eq_bind, Option.bind_some,
      Option.bind_none]

variable {ids inits maxs : List ℕ} {vids vinits vmaxs : List Str}

/-- Where one of the arrays is at its end, so is the loop. -/
theorem initLoop_of_nil (hnil : ids = [] ∨ inits = [] ∨ maxs = []) (sems : List TSemaphore) :
    initLoop sems h ids inits maxs = some (sems, h) := by
  rcases hnil with rfl | rfl | rfl
  · simp [initLoop]
  · cases ids <;> simp [initLoop]
  · cases ids <;> cases inits <;> simp [initLoop]

theorem combine_of_nil (hnil : vids = [] ∨ vinits = [] ∨ vmaxs = []) :
    combine vids vinits vmaxs = [] := by
  rcases hnil with rfl | rfl | rfl
  · simp [combine, List.zipWith3]
  · cases vids <;> simp [combine, List.zipWith3]
  · cases vids <;> cases vinits <;> simp [combine, List.zipWith3]

/-- One round over live strings. -/
theorem initLoop_cons {init max : ℕ} {vinit vmax : Str} (hinit : h.read init = some vinit)
    (hmax : h.read max = some vmax) (sems : List TSemaphore) :
    initLoop sems h (id :: ids) (init :: inits) (max :: maxs) =
      (semaphoreCreate h id (atoi vinit) (atoi vmax)).bind fun r =>
        initLoop (sems ++ [r.1]) r.2 ids inits maxs := by
  simp only [initLoop, hinit, hmax, Option.bind_eq_bind, Option.bind_some]

/-- The loop has made these semaphores of the arrays, behind those it had, without touching a
string that was there. -/
def Made (h : FreshHeap Str) (sems : List TSemaphore) (entries : List (Str × ℤ × ℤ))
    (r : Option (List TSemaphore × FreshHeap Str)) : Prop :=
  ∃ created h', r = some (sems ++ created, h') ∧ created.map (valueOf h') = entries.map some ∧
    ∀ p v, h.read p = some v → h'.read p = some v

theorem made_nil (sems : List TSemaphore) : Made h sems [] (some (sems, h)) :=
  ⟨[], h, by rw [List.append_nil], rfl, fun _ _ hp => hp⟩

/-- A semaphore in front of those the rest of the loop makes. -/
theorem Made.cons {sems : List TSemaphore} {value maxValue : ℤ}
    {entries : List (Str × ℤ × ℤ)} {r : Option (List TSemaphore × FreshHeap Str)}
    (hr : Made (h.alloc text).2 (sems ++ [⟨h.next, value, maxValue, []⟩]) entries r) :
    Made h sems ((text, value, maxValue) :: entries) r := by
  obtain ⟨created, h', rfl, hvalue, hkeep⟩ := hr
  have hid : h'.read h.next = some text := hkeep _ _ (by simp)
  refine ⟨⟨h.next, value, maxValue, []⟩ :: created, h', ?_, ?_, ?_⟩
  · rw [List.append_assoc, List.singleton_append]
  · rw [List.map_cons, List.map_cons, hvalue, valueOf, hid]
    rfl
  · intro p v hp
    exact hkeep p v (FreshHeap.read_alloc_of_some hp)

theorem made_of_nil (hids : h.Holds ids vids) (hinits : h.Holds inits vinits)
    (hmaxs : h.Holds maxs vmaxs) (hnil : ids = [] ∨ inits = [] ∨ maxs = [])
    (sems : List TSemaphore) :
    (∀ e ∈ combine vids vinits vmaxs, e.1.length < 8) ∧
      Made h sems (combine vids vinits vmaxs) (initLoop sems h ids inits maxs) := by
  have hvnil : vids = [] ∨ vinits = [] ∨ vmaxs = [] := by
    rcases hnil with rfl | rfl | rfl
    · exact .inl (List.forall₂_nil_left_iff.1 hids)
    · exact .inr (.inl (List.forall₂_nil_left_iff.1 hinits))
    · exact .inr (.inr (List.forall₂_nil_left_iff.1 hmaxs))
  rw [combine_of_nil hvnil, initLoop_of_nil hnil]
  exact ⟨by simp, made_nil sems⟩

/-- Over live strings the loop makes the semaphores of the three arrays, unless it copies an id
over the end of its block. -/
theorem initLoop_of_live (hids : h.Holds ids vids) (hinits : h.Holds inits vinits)
    (hmaxs : h.Holds maxs vmaxs) (sems : List TSemaphore) :
    ((∃ e ∈ combine vids vinits vmaxs, 8 ≤ e.1.length) ∧
      initLoop sems h ids inits maxs = none) ∨
    ((∀ e ∈ combine vids vinits vmaxs, e.1.length < 8) ∧
      Made h sems (combine vids vinits vmaxs) (initLoop sems h ids inits maxs)) := by
  induction ids generalizing h inits maxs vids vinits vmaxs sems with
  | nil => exact .inr (made_of_nil hids hinits hmaxs (.inl rfl) sems)
  | cons id ids ih =>
      by_cases hnil : inits = [] ∨ maxs = []
      · exact .inr (made_of_nil hids hinits hmaxs (.inr hnil) sems)
      · rw [not_or] at hnil
        obtain ⟨init, inits, rfl⟩ := List.exists_cons_of_ne_nil hnil.1
        obtain ⟨max, maxs, rfl⟩ := List.exists_cons_of_ne_nil hnil.2
        obtain ⟨text, vids, hid, hids', rfl⟩ := List.forall₂_cons_left_iff.1 hids
        obtain ⟨vinit, vinits, hinit, hinits', rfl⟩ := List.forall₂_cons_left_iff.1 hinits
        obtain ⟨vmax, vmaxs, hmax, hmaxs', rfl⟩ := List.forall₂_cons_left_iff.1 hmaxs
        have hcombine : combine (text :: vids) (vinit :: vinits) (vmax :: vmaxs) =
          (text, atoi vinit, atoi vmax) :: combine vids vinits vmaxs := rfl
        rw [initLoop_cons hinit hmax, hcombine]
        rcases semaphoreCreate_spec hid (atoi vinit) (atoi vmax) with
          ⟨hlong, hcreate⟩ | ⟨hshort, hcreate⟩
        · left
          rw [hcreate]
          exact ⟨⟨_, List.mem_cons_self, hlong⟩, rfl⟩
        · -- the rest of the loop runs with the copy on the heap
          rw [hcreate, Option.bind_some]
          rcases ih (FreshHeap.Holds.alloc hids' text) (FreshHeap.Holds.alloc hinits' text)
              (FreshHeap.Holds.alloc hmaxs' text)
              (sems ++ [⟨h.next, atoi vinit, atoi vmax, []⟩]) with
            ⟨⟨e, he, hlong⟩, hnone⟩ | ⟨hall, hrest⟩
          · exact .inl ⟨⟨e, List.mem_cons_of_mem _ he, hlong⟩, hnone⟩
          · refine .inr ⟨?_, hrest.cons⟩
            simpa [hshort] using hall

end Init

section Claims
variable {configCreate : String → Option (TConfig ρ)} {configFile : TConfig ρ}
  {s : SemGlobals ρ} {c : TSuseConfig ρ}

/-- Were the strings of the arrays still live, the semaphores would be those of the file exactly
if each id used leaves room for its NUL in the size of a pointer. -/
theorem semaphores_of_live_iff (hc : s.suseConfig = some c)
    (hl : Loaded configFile c s.heap) :
    (∃ s', schedulerInitSemaphores s = some s' ∧
      s'.semphores.map (valueOf s'.heap) =
        (combine (configFile.configGetArrayValue "SEM_IDS")
          (configFile.configGetArrayValue "SEM_INIT")
          (configFile.configGetArrayValue "SEM_MAX")).map some) ↔
      ∀ e ∈ combine (configFile.configGetArrayValue "SEM_IDS")
        (configFile.configGetArrayValue "SEM_INIT")
        (configFile.configGetArrayValue "SEM_MAX"), e.1.length < 8 := by
  rcases initLoop_of_live hl.ids hl.inits hl.maxs [] with
    ⟨⟨e, he, hlong⟩, hnone⟩ | ⟨hall, created, h', hloop, hvalue, -⟩
  · constructor
    · rintro ⟨s', hinit, -⟩
      simp [schedulerInitSemaphores, hc, hnone] at hinit
    · intro hshort
      have hlt := hshort e he
      omega
  · refine ⟨fun _ => hall, fun _ => ?_⟩
    refine ⟨{ s with semphores := created, heap := h' }, ?_, hvalue⟩
    simp [schedulerInitSemaphores, hc, hloop]

/-- Over released strings nothing can be made of a semaphore. -/
theorem schedulerInitSemaphores_of_released (hc : s.suseConfig = some c)
    (hreleased : Released c s.heap) (hids : c.semIds ≠ []) (hinits : c.semInit ≠ [])
    (hmaxs : c.semMax ≠ []) : schedulerInitSemaphores s = none := by
  obtain ⟨id, ids, heq⟩ := List.exists_cons_of_ne_nil hids
  obtain ⟨init, inits, heq'⟩ := List.exists_cons_of_ne_nil hinits
  obtain ⟨max, maxs, heq''⟩ := List.exists_cons_of_ne_nil hmaxs
  have hnone : s.heap.read init = none := hreleased.inits init (by simp [heq'])
  simp [schedulerInitSemaphores, hc, heq, heq', heq'', initLoop, hnone]

/-- Where there is a semaphore to make, it is not made of the strings of the file. -/
theorem not_semaphoresMatch (hfile : configCreate configFilePath = some configFile)
    (hids : configFile.configGetArrayValue "SEM_IDS" ≠ [])
    (hinits : configFile.configGetArrayValue "SEM_INIT" ≠ [])
    (hmaxs : configFile.configGetArrayValue "SEM_MAX" ≠ []) :
    ¬ SemaphoresMatch configCreate configFile s := by
  obtain ⟨s₁, c, hload, hc, hreleased, hids', hinits', hmaxs'⟩ := suseConfigLoad_spec hfile s
  rintro ⟨s₁', s₂, hload', hinit, -⟩
  obtain rfl : s₁ = s₁' := by simpa [hload] using hload'
  rw [Ne, ← List.length_eq_zero_iff] at hids hinits hmaxs
  rw [← hids', List.length_eq_zero_iff] at hids
  rw [← hinits', List.length_eq_zero_iff] at hinits
  rw [← hmaxs', List.length_eq_zero_iff] at hmaxs
  rw [schedulerInitSemaphores_of_released hc hreleased hids hinits hmaxs] at hinit
  cases hinit

/-- For every configuration file and every state before: the configuration is loaded and the
semaphores are those of the file if and only if there are none to make.  `print_config` has
released the strings of the arrays. -/
theorem semaphores_match_iff (hfile : configCreate configFilePath = some configFile)
    (s : SemGlobals ρ) :
    SemaphoresMatch configCreate configFile s ↔
      configFile.configGetArrayValue "SEM_IDS" = [] ∨
      configFile.configGetArrayValue "SEM_INIT" = [] ∨
      configFile.configGetArrayValue "SEM_MAX" = [] := by
  constructor
  · intro hmatch
    by_contra hne
    rw [not_or, not_or] at hne
    exact not_semaphoresMatch hfile hne.1 hne.2.1 hne.2.2 hmatch
  · intro hnil
    obtain ⟨s₁, c, hload, hc, -, hids, hinits, hmaxs⟩ := suseConfigLoad_spec hfile s
    have hnil' : c.semIds = [] ∨ c.semInit = [] ∨ c.semMax = [] := by
      simpa only [← List.length_eq_zero_iff, hids, hinits, hmaxs] using hnil
    refine ⟨s₁, { s₁ with semphores := [] }, hload, ?_, ?_⟩
    · simp [schedulerInitSemaphores, hc, initLoop_of_nil hnil']
    · rw [combine_of_nil hnil]
      rfl

/-- The values of a `suse.config` without semaphores. -/
def noSemaphores : TConfig ℚ where
  configGetIntValue key :=
    if key = "LISTEN_PORT" then 5003 else if key = "METRICS_TIMER" then 5000 else 10
  configGetArrayValue _ := []
  configGetDoubleValue _ := 1 / 2

theorem semaphores_match_iff_none :
    SemaphoresMatch (fun _ => some noSemaphores) noSemaphores ⟨none, [], .empty⟩ :=
  (semaphores_match_iff rfl ⟨none, [], .empty⟩).mpr (.inl rfl)

/-- The values of a `suse.config` with two semaphores. -/
def twoSemaphores : TConfig ℚ where
  configGetIntValue := noSemaphores.configGetIntValue
  configGetArrayValue key :=
    if key = "SEM_IDS" then [[65], [66]] else if key = "SEM_INIT" then [[48], [49]]
    else [[49], [53]]
  configGetDoubleValue := noSemaphores.configGetDoubleValue

/-- With the semaphores A and B of the configuration, the id of the first is read after it was
released. -/
theorem released_id_used :
    ¬ SemaphoresMatch (fun _ => some twoSemaphores) twoSemaphores ⟨none, [], .empty⟩ :=
  not_semaphoresMatch rfl (by decide) (by decide) (by decide)

end Claims

end Threaders.Suse
