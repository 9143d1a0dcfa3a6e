import Mathlib.Data.Nat.Digits

/-!
# Main — the command line of `revamb` and the search for its libraries

`main.cpp` hands its arguments to `argparse` and then checks what `argparse` does not: that
exactly two positional arguments remain, that `--entry` is a number for `sscanf("%lld")`, and that
`--debug-info` names one of the four kinds of debug information. It turns `--debug` into a list
of debug features, one per comma-separated piece, and gives every path option that was not set
the empty string. `findQemu` then takes the directory of the executable from `realpath` and
looks for `libtinycode` and its helpers along a list of search paths, the last of them next to
that directory, and keeps the first directory that holds both.

The C library functions these use are modelled as the C standard and glibc define them:
`isspace` in the "C" locale, `sscanf` with `%lld` (leading white space, a sign, the longest run
of decimal digits, saturating as glibc's `strtoll` does), the `(size_t)` cast, `std::getline`
with a delimiter, and `dirname`. What `realpath` and `access` find in the file system is an
input: `realpath` gives a canonical path or fails.
-/

namespace Hybitor

/-! ## 1. The C library -/

/-- `isspace` in the "C" locale: the space and the characters from `\t` to `\r`. -/
def isSpace (c : Char) : Bool := c.toNat = 32 || (9 ≤ c.toNat && c.toNat ≤ 13)

/-- The value of a run of decimal digits, most significant first. -/
def digitsValue (ds : List Char) : Nat :=
  ds.foldl (fun n c => 10 * n + (c.toNat - '0'.toNat)) 0

/-- `LLONG_MIN` and `LLONG_MAX`. -/
def llongMin : Int := -9223372036854775808

def llongMax : Int := 9223372036854775807

/-- The optional sign `%lld` accepts: whether it is a minus, and what follows it. -/
def readSign : List Char → Bool × List Char
  | '-' :: cs => (true, cs)
  | '+' :: cs => (false, cs)
  | cs => (false, cs)

/-- `sscanf(S, "%lld", &V) == 1`, with the `V` it stores: white space, an optional sign, and
then at least one decimal digit, as many as follow; the rest of `S` is not read. A value out of
range saturates, as glibc's `strtoll`, on which its `scanf` rests, does. -/
def scanLongLong (s : String) : Option Int :=
  let (neg, cs) := readSign (s.toList.dropWhile isSpace)
  match cs.takeWhile Char.isDigit with
  | [] => none
  | ds =>
    let v : Int := digitsValue ds
    some (max llongMin (min llongMax (if neg then -v else v)))

/-- `(size_t)V` for a `long long` `V`, on a 64-bit target. -/
def toSizeT (v : Int) : UInt64 := UInt64.ofNat (v % 2 ^ 64).toNat

/-- `while (std::getline(Stream, Type, ','))`, `cur` being the piece read so far: the pieces
between commas, in order. A call that meets the end of the stream having read nothing fails and
ends the loop, so nothing after a last comma is read as an empty piece. -/
def getlines (cur : List Char) : List Char → List String
  | [] => if cur = [] then [] else [String.mk cur]
  | c :: cs => if c = ',' then String.mk cur :: getlines [] cs else getlines (cur ++ [c]) cs

/-- `s` without the slashes that end it. -/
def dropTrailingSlashes (s : List Char) : List Char :=
  (s.reverse.dropWhile (· = '/')).reverse

/-- The characters before the last `/` of `s`, as `strrchr` finds it; `none` when there is none. -/
def beforeLastSlash (s : List Char) : Option (List Char) :=
  match s.reverse.dropWhile (· ≠ '/') with
  | [] => none
  | _ :: pre => some pre.reverse

/-- glibc's `dirname`: the path up to its last `/`, trailing slashes ignored, without the slashes
that end that part; `/` when nothing is left (`//` for exactly two leading slashes, which POSIX
lets mean something else), and `.` when the path has no `/` but at its end. -/
def dirname (path : String) : String :=
  let s := dropTrailingSlashes path.toList
  match beforeLastSlash s with
  | none =>
    if s = [] ∧ '/' ∈ path.toList then if path.toList = ['/', '/'] then "//" else "/" else "."
  | some pre =>
    let d := dropTrailingSlashes pre
    if d = [] then if pre = ['/'] then "//" else "/" else String.mk d

example : dirname "/usr/bin/revamb" = "/usr/bin" ∧ dirname "/revamb" = "/" ∧
    dirname "//a" = "//" ∧ dirname "a//b//" = "a" ∧ dirname "a/" = "." := by
  decide

/-! ## 2. `parseArgs` -/

/-- `enum class DebugInfoType` of `revamb.h`. -/
inductive DebugInfoType where
  | none
  | originalAssembly
  | ptc
  | llvmIR
  deriving DecidableEq, Repr

/-- The `strcmp` chain on the value of `--debug-info`. -/
def parseDebugInfo (s : String) : Option DebugInfoType :=
  if s = "none" then some .none
  else if s = "asm" then some .originalAssembly
  else if s = "ptc" then some .ptc
  else if s = "ll" then some .llvmIR
  else none

/-- What `argparse_parse` leaves for `parseArgs` to check: the string options it stored
(`nullptr` when not given) and the positional arguments, which it moves to the front of `Argv`. -/
structure Arguments where
  entry : Option String
  debugPath : Option String
  coveragePath : Option String
  linkingInfoPath : Option String
  debugInfo : Option String
  debugLogging : Option String
  bbSummaryPath : Option String
  positional : List String
  deriving DecidableEq, Repr

/-- The fields of `ProgramParameters` that `parseArgs` sets. -/
structure ProgramParameters where
  inputPath : String
  outputPath : String
  entryPointAddress : UInt64
  debugInfo : DebugInfoType
  debugPath : String
  linkingInfoPath : String
  coveragePath : String
  bbSummaryPath : String
  deriving DecidableEq, Repr

/-- What a successful `parseArgs` leaves: the parameters, and the debug features it enabled, in
order (`none` when it left `DebuggingEnabled` alone). -/
structure ParsedArgs where
  params : ProgramParameters
  debugFeatures : Option (List String)
  deriving DecidableEq, Repr

/-- The check of `--entry`: `main` zero-initialises `EntryPointAddress`. -/
def entryPointAddress : Option String → Except String UInt64
  | none => .ok 0
  | some e =>
    match scanLongLong e with
    | some v => .ok (toSizeT v)
    | none => .error "Entry point parameter (-e, --entry) is not a number.\n"

/-- The check of `--debug-info`: `main` zero-initialises `DebugInfo` to `DebugInfoType::None`. -/
def debugInfoType : Option String → Except String DebugInfoType
  | none => .ok .none
  | some g =>
    match parseDebugInfo g with
    | some t => .ok t
    | none => .error "Unexpected value for the debug type parameter (-g, --debug).\n"

/-- `parseArgs` once `argparse_parse` has run: the message it prints to `stderr` when it returns
`EXIT_FAILURE`. -/
def parseArgs (a : Arguments) : Except String ParsedArgs :=
  match a.positional with
  | [input, output] =>
    match entryPointAddress a.entry with
    | .error msg => .error msg
    | .ok entry =>
      match debugInfoType a.debugInfo with
      | .error msg => .error msg
      | .ok debugInfo =>
        .ok ⟨⟨input, output, entry, debugInfo, a.debugPath.getD "", a.linkingInfoPath.getD "",
          a.coveragePath.getD "", a.bbSummaryPath.getD ""⟩,
          a.debugLogging.map fun d => getlines [] d.toList⟩
  | _ => .error "Too many arguments.\n"

/-! ## 3. `findQemu` -/

/-- A path as `realpath` returns it: absolute, with no empty component and no trailing slash. It
is written `/`, then its components, each after a `/`. -/
structure CanonicalPath where
  components : List String
  wf : ∀ c ∈ components, c.toList ≠ [] ∧ '/' ∉ c.toList

namespace CanonicalPath

/-- Each component after a `/`. -/
def chars (cs : List String) : List Char := cs.flatMap fun c => '/' :: c.toList

def toString (p : CanonicalPath) : String :=
  if p.components = [] then "/" else String.mk (chars p.components)

/-- The directory that holds `p`; the root holds itself. -/
def parent (p : CanonicalPath) : CanonicalPath :=
  ⟨p.components.dropLast, fun c hc => p.wf c (List.dropLast_subset _ hc)⟩

end CanonicalPath

/-- The search paths of `findQemu`: `QEMU_INSTALL_PATH/lib` and `INSTALL_PATH/lib` where the build
defines them, then `../lib` from the directory of the executable. -/
def searchPaths (qemuInstallPath installPath : Option String) (directory : String) :
    List String :=
  (qemuInstallPath.map (· ++ "/lib")).toList ++ (installPath.map (· ++ "/lib")).toList ++
    [directory ++ "/../lib"]

/-- The library and the helpers of `arch` in `path`. -/
def qemuLibraries (arch path : String) : String × String :=
  (path ++ "/libtinycode-" ++ arch ++ ".so", path ++ "/libtinycode-helpers-" ++ arch ++ ".ll")

/-- The loop of `findQemu`, `access` telling which files exist: `LibTinycodePath` and
`LibHelpersPath` from the first path that holds both, or `none` for the failed assertion. -/
def findQemuLoop (access : String → Bool) (arch : String) : List String → Option (String × String)
  | [] => none
  | path :: paths =>
    if access (qemuLibraries arch path).1 && access (qemuLibraries arch path).2 then
      some (qemuLibraries arch path)
    else findQemuLoop access arch paths

/-- `findQemu`. `exe` is what `realpath("/proc/self/exe", nullptr)` returns, `none` for `nullptr`,
and `qemuInstallPath` and `installPath` are the macros of the build, `none` where it leaves them
undefined. `none` when one of its two assertions fails. -/
def findQemu (qemuInstallPath installPath : Option String) (exe : Option CanonicalPath)
    (access : String → Bool) (arch : String) : Option (String × String) :=
  match exe with
  | none => none
  | some fullPath =>
    findQemuLoop access arch (searchPaths qemuInstallPath installPath (dirname fullPath.toString))

/-! ## 4. What `%lld` reads -/

theorem isSpace_eq_false {c : Char} (h : c.isDigit) : isSpace c = false := by
  simp only [Char.isDigit, Bool.and_eq_true, decide_eq_true_eq] at h
  have : 48 ≤ c.toNat ∧ c.toNat ≤ 57 := h
  simp only [isSpace, Bool.or_eq_false_iff, Bool.and_eq_false_iff, decide_eq_false_iff_not]
  omega

/-- `readSign` drops a sign, if there is one, and nothing else. -/
theorem readSign_eq (l : List Char) :
    ∃ sign, l = sign ++ (readSign l).2 ∧ (sign = [] ∨ sign = ['-'] ∨ sign = ['+']) := by
  unfold readSign
  split
  · exact ⟨['-'], rfl, .inr (.inl rfl)⟩
  · exact ⟨['+'], rfl, .inr (.inr rfl)⟩
  · exact ⟨[], rfl, .inl rfl⟩

theorem readSign_of_isDigit {d : Char} (hd : d.isDigit) (cs : List Char) :
    readSign (d :: cs) = (false, d :: cs) := by
  unfold readSign
  split
  · rename_i h; cases h; exact absurd hd (by decide)
  · rename_i h; cases h; exact absurd hd (by decide)
  · rfl

theorem digitsValue_foldl (a : Nat) (l : List Char) :
    l.foldl (fun n c => 10 * n + (c.toNat - '0'.toNat)) a = a * 10 ^ l.length + digitsValue l := by
  induction l generalizing a with
  | nil => simp [digitsValue]
  | cons c cs ih =>
    have hc : digitsValue (c :: cs) =
        (10 * 0 + (c.toNat - '0'.toNat)) * 10 ^ cs.length + digitsValue cs := ih _
    rw [List.foldl_cons, ih, hc, List.length_cons]
    ring

@[simp] theorem digitsValue_singleton (c : Char) : digitsValue [c] = c.toNat - '0'.toNat := by
  simp [digitsValue]

theorem digitsValue_append (l₁ l₂ : List Char) :
    digitsValue (l₁ ++ l₂) = digitsValue l₁ * 10 ^ l₂.length + digitsValue l₂ := by
  rw [digitsValue, List.foldl_append, digitsValue_foldl]
  rfl

/-- `%lld` skips white space and a sign, reads the longest run of digits that follows, and
ignores the rest of the string: the value is that of the digits, negated after a minus sign,
and saturated. -/
theorem scanLongLong_mk {ws sign ds rest : List Char} (hws : ∀ c ∈ ws, isSpace c)
    (hsign : sign = [] ∨ sign = ['-'] ∨ sign = ['+']) (hds : ∀ c ∈ ds, c.isDigit) (hne : ds ≠ [])
    (hrest : ∀ c ∈ rest.head?, c.isDigit = false) :
    scanLongLong (String.mk (ws ++ sign ++ ds ++ rest)) =
      some (max llongMin (min llongMax
        (if sign = ['-'] then -(digitsValue ds : Int) else digitsValue ds))) := by
  obtain ⟨d, ds', rfl⟩ := List.exists_cons_of_ne_nil hne
  have hd : d.isDigit := hds d (List.mem_cons_self _ _)
  have hdrop : (ws ++ sign ++ d :: ds' ++ rest).dropWhile isSpace = sign ++ d :: ds' ++ rest := by
    rw [List.append_assoc ws, List.append_assoc ws, List.dropWhile_append,
      if_pos (List.isEmpty_iff.mpr (List.dropWhile_eq_nil_iff.mpr hws))]
    rcases hsign with rfl | rfl | rfl
    · exact List.dropWhile_cons_of_neg (by simp [isSpace_eq_false hd])
    all_goals exact List.dropWhile_cons_of_neg (by decide)
  have htake : (d :: ds' ++ rest).takeWhile Char.isDigit = d :: ds' := by
    rw [List.takeWhile_append_of_pos hds]
    cases rest with
    | nil => rw [List.takeWhile_nil, List.append_nil]
    | cons r rs => rw [List.takeWhile_cons_of_neg (by simpa using hrest r rfl), List.append_nil]
  have hsign' : readSign (sign ++ d :: ds' ++ rest) =
      (decide (sign = ['-']), d :: ds' ++ rest) := by
    rcases hsign with rfl | rfl | rfl
    · exact readSign_of_isDigit hd _
    all_goals rfl
  have hs : (String.mk (ws ++ sign ++ d :: ds' ++ rest)).toList = ws ++ sign ++ d :: ds' ++ rest :=
    rfl
  simp only [scanLongLong, hs, hdrop, hsign', htake, decide_eq_true_eq]

/-- The strings `%lld` reads: after leading white space and at most one sign, a decimal digit.
Whatever follows the first digit, `sscanf` reports one conversion. -/
theorem scanLongLong_isSome_iff (s : String) :
    (scanLongLong s).isSome ↔ ∃ ws sign d rest, s.toList = ws ++ sign ++ d :: rest ∧
      (∀ c ∈ ws, isSpace c) ∧ (sign = [] ∨ sign = ['-'] ∨ sign = ['+']) ∧ d.isDigit := by
  constructor
  · intro h
    rcases hr : readSign (s.toList.dropWhile isSpace) with ⟨neg, cs⟩
    obtain ⟨sign, hsign, hs⟩ := readSign_eq (s.toList.dropWhile isSpace)
    unfold scanLongLong at h
    rw [hr] at h hsign
    cases hcs : cs with
    | nil => simp [hcs] at h
    | cons d rest =>
      have hd : d.isDigit := by
        by_contra hn
        simp [hcs, hn] at h
      refine ⟨s.toList.takeWhile isSpace, sign, d, rest, ?_,
        fun c hc => List.all_eq_true.mp List.all_takeWhile c hc, hs, hd⟩
      rw [List.append_assoc, ← hcs, ← hsign, List.takeWhile_append_dropWhile]
  · rintro ⟨ws, sign, d, rest, hs, hws, hsign, hd⟩
    have hrest : ∀ c ∈ (rest.dropWhile Char.isDigit).head?, c.isDigit = false := fun c hc => by
      have := List.head?_dropWhile_not Char.isDigit rest
      rwa [Option.mem_def.mp hc] at this
    have hds : ∀ c ∈ d :: rest.takeWhile Char.isDigit, c.isDigit := by
      simpa [hd] using fun c hc => List.all_eq_true.mp List.all_takeWhile c hc
    have hs' : s = String.mk (ws ++ sign ++ (d :: rest.takeWhile Char.isDigit) ++
        rest.dropWhile Char.isDigit) := by
      rw [List.append_assoc _ (d :: _), List.cons_append, List.takeWhile_append_dropWhile, ← hs]
      rfl
    rw [hs', scanLongLong_mk hws hsign hds (List.cons_ne_nil _ _) hrest]
    rfl

/-- Printing `n` in decimal in front of `ds` puts there a run of digits worth `n`. -/
theorem toDigitsCore_ten (f n : Nat) (hf : n < f) (ds : List Char) :
    ∃ ds', Nat.toDigitsCore 10 f n ds = ds' ++ ds ∧ ds' ≠ [] ∧ (∀ c ∈ ds', c.isDigit) ∧
      digitsValue ds' = n := by
  induction f generalizing n ds with
  | zero => omega
  | succ f ih =>
    have hdig : (Nat.digitChar (n % 10)).isDigit ∧ digitsValue [Nat.digitChar (n % 10)] = n % 10 :=
      (by decide : ∀ d < 10, (Nat.digitChar d).isDigit ∧ (Nat.digitChar d).toNat - '0'.toNat = d) _
        (Nat.mod_lt n (by omega)) |>.imp_right (digitsValue_singleton _).trans
    simp only [Nat.toDigitsCore]
    split
    · refine ⟨[Nat.digitChar (n % 10)], rfl, List.cons_ne_nil _ _, by simpa using hdig.1, ?_⟩
      omega
    · obtain ⟨ds', h, hne, hdigits, hval⟩ := ih (n / 10) (by omega) (Nat.digitChar (n % 10) :: ds)
      refine ⟨ds' ++ [Nat.digitChar (n % 10)], by simp [h], by simp, ?_, ?_⟩
      · simpa [or_imp, forall_and] using ⟨hdigits, hdig.1⟩
      · rw [digitsValue_append, hval, hdig.2, List.length_singleton, pow_one]
        omega

/-- A number that `toString` prints in decimal, and that fits a `long long`, is read back by
`%lld`. -/
theorem scanLongLong_toString {n : Nat} (hn : n ≤ 9223372036854775807) :
    scanLongLong (toString n) = some (n : Int) := by
  obtain ⟨ds, h, hne, hdigits, hval⟩ := toDigitsCore_ten (n + 1) n (Nat.lt_succ_self n) []
  have := @scanLongLong_mk [] [] ds [] (by simp) (.inl rfl) hdigits hne (by simp)
  simp only [List.append_nil, List.nil_append, hval] at this h
  show scanLongLong (String.mk (Nat.toDigitsCore 10 (n + 1) n [])) = _
  rw [h, this]
  simp only [llongMin, llongMax, if_neg (List.cons_ne_nil _ _).symm]
  congr 1
  omega

/-! ## 5. What `parseArgs` reports, and the entry point it reads -/

/-- Which message `parseArgs` prints: the checks run in the order of the source, the positional
arguments first, and each message belongs to one check. -/
theorem parseArgs_error {a : Arguments} {msg : String} (h : parseArgs a = .error msg) :
    (a.positional.length ≠ 2 ∧ msg = "Too many arguments.\n") ∨
    (a.positional.length = 2 ∧ entryPointAddress a.entry = .error msg) ∨
    (a.positional.length = 2 ∧ (∃ v, entryPointAddress a.entry = .ok v) ∧
      debugInfoType a.debugInfo = .error msg) := by
  unfold parseArgs at h
  split at h
  · rename_i input output hpos
    have hlen : a.positional.length = 2 := by rw [hpos]; rfl
    cases he : entryPointAddress a.entry with
    | error m =>
      rw [he] at h
      cases h
      exact .inr (.inl ⟨hlen, rfl⟩)
    | ok v =>
      rw [he] at h
      cases hg : debugInfoType a.debugInfo with
      | error m =>
        rw [hg] at h
        cases h
        exact .inr (.inr ⟨hlen, ⟨v, rfl⟩, rfl⟩)
      | ok t => rw [hg] at h; cases h
  · rename_i hpos
    cases h
    exact .inl ⟨fun hl => by
      obtain ⟨input, output, he⟩ := List.length_eq_two.mp hl
      exact hpos input output he, rfl⟩

/-- An entry point given in decimal is the entry point, when it fits a `long long`. -/
theorem entryPointAddress_toString {n : Nat} (hn : n ≤ 9223372036854775807) :
    entryPointAddress (some (toString n)) = .ok n.toUInt64 := by
  simp only [entryPointAddress, scanLongLong_toString hn, toSizeT]
  congr 2
  omega

theorem entryPointAddress_toString_example :
    entryPointAddress (some (toString 4194304)) = .ok 4194304 :=
  entryPointAddress_toString (by decide)

/-- An entry point given in hexadecimal is read as `0`: `%lld` stops at the `x`. -/
theorem entryPointAddress_hex (s : String) : entryPointAddress (some ("0x" ++ s)) = .ok 0 := by
  have h := @scanLongLong_mk [] [] ['0'] ('x' :: s.toList) (by simp) (.inl rfl) (by decide)
    (List.cons_ne_nil _ _) (by simp)
  have hs : String.mk ([] ++ [] ++ ['0'] ++ 'x' :: s.toList) = "0x" ++ s := by
    apply String.ext; simp
  rw [hs] at h
  simp only [entryPointAddress, h]
  rfl

/-- A negative entry point wraps around: `-n` is `2^64 - n`. -/
theorem entryPointAddress_neg {n : Nat} (hn : 0 < n) (hn' : n ≤ 9223372036854775808) :
    entryPointAddress (some ("-" ++ toString n)) = .ok (UInt64.ofNat (2 ^ 64 - n)) := by
  obtain ⟨ds, h, hne, hdigits, hval⟩ := toDigitsCore_ten (n + 1) n (Nat.lt_succ_self n) []
  have hscan := @scanLongLong_mk [] ['-'] ds [] (by simp) (.inr (.inl rfl)) hdigits hne (by simp)
  have hs : String.mk ([] ++ ['-'] ++ ds ++ []) = "-" ++ toString n := by
    apply String.ext
    show ['-'] ++ ds ++ [] = ['-'] ++ Nat.toDigitsCore 10 (n + 1) n []
    rw [h, List.append_nil, List.append_nil]
  rw [hs] at hscan
  simp only [entryPointAddress, hscan, hval, toSizeT, ite_true, llongMin, llongMax]
  congr 2
  omega

theorem entryPointAddress_neg_example :
    entryPointAddress (some ("-" ++ toString 1)) = .ok 18446744073709551615 :=
  entryPointAddress_neg (by decide) (by decide)

/-! ## 6. The debug features -/

theorem getlines_ne_nil {cur cs : List Char} (h : cur ≠ [] ∨ cs ≠ []) : getlines cur cs ≠ [] := by
  induction cs generalizing cur with
  | nil =>
    simp only [getlines, if_neg (h.resolve_right (by simp))]
    exact List.cons_ne_nil _ _
  | cons c cs ih =>
    simp only [getlines]
    split
    · exact List.cons_ne_nil _ _
    · exact ih (.inl (by simp))

/-- Joining the debug features with commas gives back the value of `--debug`, all but a last
comma. -/
theorem getlines_intercalate (cur cs : List Char) :
    List.intercalate [','] ((getlines cur cs).map String.toList) ++
      (if cs.getLast? = some ',' then [','] else []) = cur ++ cs := by
  induction cs generalizing cur with
  | nil => by_cases h : cur = [] <;> simp [getlines, h, List.intercalate]
  | cons c cs ih =>
    simp only [getlines]
    split
    · subst c
      cases cs with
      | nil => simp [getlines, List.intercalate]
      | cons c' cs =>
        obtain ⟨p, ps, hps⟩ := List.exists_cons_of_ne_nil
          (@getlines_ne_nil [] (c' :: cs) (.inr (List.cons_ne_nil c' cs)))
        have h := ih []
        rw [hps] at h ⊢
        simp only [List.map_cons, List.intercalate, List.intersperse_cons_cons, List.flatten_cons,
          List.getLast?_cons_cons, List.append_assoc, List.nil_append] at h ⊢
        rw [h]
        rfl
    · have htail : (if (c :: cs).getLast? = some ',' then [','] else []) =
          if cs.getLast? = some ',' then [','] else [] := by
        cases cs with
        | nil => simp [*]
        | cons c' cs => rw [List.getLast?_cons_cons]
      rw [htail, ih (cur ++ [c]), List.append_assoc, List.singleton_append]

/-! ## 7. `findQemu` -/

theorem dropTrailingSlashes_of_getLast? {s : List Char} {x : Char} (h : s.getLast? = some x)
    (hx : x ≠ '/') : dropTrailingSlashes s = s := by
  rw [← List.head?_reverse] at h
  unfold dropTrailingSlashes
  cases hs : s.reverse with
  | nil => rw [hs] at h; cases h
  | cons y r =>
    rw [hs, List.head?_cons, Option.some.injEq] at h
    rw [List.dropWhile_cons_of_neg (by simpa [h] using hx), ← hs, List.reverse_reverse]

theorem beforeLastSlash_append {pre c : List Char} (hc : '/' ∉ c) :
    beforeLastSlash (pre ++ '/' :: c) = some pre := by
  have hc' : ∀ x ∈ c.reverse, decide (x ≠ '/') = true := fun x hx =>
    decide_eq_true (by rintro rfl; exact hc (List.mem_reverse.mp hx))
  simp only [beforeLastSlash, List.reverse_append, List.reverse_cons, List.append_assoc,
    List.singleton_append, List.dropWhile_append_of_pos hc']
  simp

namespace CanonicalPath

theorem chars_concat (cs : List String) (c : String) :
    chars (cs ++ [c]) = chars cs ++ '/' :: c.toList := by
  simp [chars]

/-- A canonical path other than the root ends in a character of its last component. -/
theorem getLast?_chars {cs : List String} (hcs : cs ≠ [])
    (wf : ∀ c ∈ cs, c.toList ≠ [] ∧ '/' ∉ c.toList) :
    ∃ x, (chars cs).getLast? = some x ∧ x ≠ '/' := by
  obtain ⟨cs, c, rfl⟩ := (List.eq_nil_or_concat cs).resolve_left hcs
  obtain ⟨hne, hslash⟩ := wf c (by simp)
  obtain ⟨l, x, hx⟩ := (List.eq_nil_or_concat c.toList).resolve_left hne
  refine ⟨x, ?_, fun h => hslash (h ▸ hx ▸ by simp)⟩
  rw [List.concat_eq_append, chars_concat, hx, List.concat_eq_append]
  exact List.getLast?_eq_some_iff.mpr ⟨chars cs ++ '/' :: l, by simp⟩

theorem dirname_chars {cs : List String} (hcs : cs ≠ [])
    (wf : ∀ c ∈ cs, c.toList ≠ [] ∧ '/' ∉ c.toList) :
    dirname (String.mk (chars cs)) =
      if cs.dropLast = [] then "/" else String.mk (chars cs.dropLast) := by
  obtain ⟨x, hx, hx'⟩ := getLast?_chars hcs wf
  obtain ⟨cs, c, rfl⟩ := (List.eq_nil_or_concat cs).resolve_left hcs
  rw [List.concat_eq_append] at wf hx ⊢
  have hbefore : beforeLastSlash (chars (cs ++ [c])) = some (chars cs) := by
    rw [chars_concat]; exact beforeLastSlash_append (wf c (by simp)).2
  simp only [dirname, show (String.mk (chars (cs ++ [c]))).toList = chars (cs ++ [c]) from rfl,
    dropTrailingSlashes_of_getLast? hx hx', hbefore, List.dropLast_concat]
  rcases eq_or_ne cs [] with rfl | hcs
  · rfl
  obtain ⟨y, hy, hy'⟩ := getLast?_chars hcs fun c' hc' => wf c' (by simp [hc'])
  rw [dropTrailingSlashes_of_getLast? hy hy', if_neg hcs,
    if_neg (List.ne_nil_of_mem (List.mem_of_getLast?_eq_some hy))]

/-- `dirname` of a canonical path is its parent. -/
theorem dirname_toString (p : CanonicalPath) : dirname p.toString = p.parent.toString := by
  by_cases h : p.components = []
  · rw [toString, if_pos h, toString, if_pos (by simp [parent, h])]
    decide
  · rw [toString, if_neg h, dirname_chars h p.wf]
    rfl

end CanonicalPath

/-- The loop keeps the first search path that holds both the library and the helpers. -/
theorem findQemuLoop_eq_some {access : String → Bool} {arch : String} {paths : List String}
    {r : String × String} :
    findQemuLoop access arch paths = some r ↔ ∃ pre path post, paths = pre ++ path :: post ∧
      (∀ q ∈ pre, (access (qemuLibraries arch q).1 && access (qemuLibraries arch q).2) = false) ∧
      (access (qemuLibraries arch path).1 && access (qemuLibraries arch path).2) = true ∧
      r = qemuLibraries arch path := by
  induction paths with
  | nil => simp [findQemuLoop]
  | cons p ps ih =>
    simp only [findQemuLoop]
    split
    · rename_i hp
      constructor
      · rintro ⟨⟩
        exact ⟨[], p, ps, rfl, by simp, hp, rfl⟩
      · rintro ⟨pre, path, post, he, hpre, -, rfl⟩
        cases pre with
        | nil => cases he; rfl
        | cons q pre =>
          cases he
          exact Bool.noConfusion ((hpre p (List.mem_cons_self _ _)).symm.trans hp)
    · rename_i hp
      rw [ih]
      constructor
      · rintro ⟨pre, path, post, rfl, hpre, hpath, rfl⟩
        refine ⟨p :: pre, path, post, rfl, fun q hq => ?_, hpath, rfl⟩
        rcases List.mem_cons.mp hq with rfl | hq
        exacts [Bool.eq_false_iff.mpr hp, hpre q hq]
      · rintro ⟨pre, path, post, he, hpre, hpath, rfl⟩
        cases pre with
        | nil => cases he; exact absurd hpath hp
        | cons q pre =>
          cases he
          exact ⟨pre, path, post, rfl, fun q' hq' => hpre q' (List.mem_cons_of_mem _ hq'), hpath,
            rfl⟩


/-- `findQemu` fails its first assertion when `realpath` fails, and otherwise keeps the first
search path that holds both the library and the helpers; the last of them is `../lib` from the
directory that holds the executable. -/
theorem findQemu_eq_some {qemuInstallPath installPath : Option String}
    {exe : Option CanonicalPath} {access : String → Bool} {arch : String} {r : String × String} :
    findQemu qemuInstallPath installPath exe access arch = some r ↔ ∃ fullPath ∈ exe,
      ∃ pre path post,
        searchPaths qemuInstallPath installPath fullPath.parent.toString = pre ++ path :: post ∧
        (∀ q ∈ pre, (access (qemuLibraries arch q).1 && access (qemuLibraries arch q).2) = false) ∧
        (access (qemuLibraries arch path).1 && access (qemuLibraries arch path).2) = true ∧
        r = qemuLibraries arch path := by
  cases exe with
  | none => simp [findQemu]
  | some fullPath =>
    simp only [findQemu, CanonicalPath.dirname_toString, findQemuLoop_eq_some, Option.mem_def,
      Option.some.injEq, exists_eq_left']

end Hybitor
