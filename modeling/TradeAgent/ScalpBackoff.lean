import TradeAgent.Domain
import TradeAgent.Library.Numeral

/-! The back-off the scalp engine stores after a failed broker request: its own doubling
delay, lengthened by the waits that the response's headers ask for. -/
namespace TradeAgent.Scalp

/-- The first and last microsecond that a datetime can hold. -/
def minTime : Instant := -62135596800 * second
def maxTime : Instant := 253402300800 * second - 1

abbrev Representable (t : Instant) : Prop := minTime ≤ t ∧ t ≤ maxTime

/-- An aware datetime. -/
structure Moment where
  time : Instant
  representable : Representable time
  deriving DecidableEq

inductive TimeError where
  | value | overflow | os
  deriving DecidableEq, Repr

/-- The errors that the handler suppresses while it reads a header. -/
def TimeError.suppressed : TimeError → Bool
  | .value | .overflow => true
  | .os => false

/-- What `float` reads: a finite double has an exact rational value. -/
inductive Double where
  | finite (value : ℚ)
  | infinite
  | nan
  deriving DecidableEq, Repr

/-- A date as the mail date parser returns it; one of zone `-0000` carries no offset. -/
inductive MailDate where
  | aware (moment : Moment)
  | naive
  deriving DecidableEq

/-- How the standard library reads a header's text; `none` where it raises a value error. -/
structure Reader where
  int : String → Option ℤ
  float : String → Option Double
  date : String → Option MailDate

structure Response where
  statusCode : ℕ
  retryAfter : Option String := none
  rateLimitReset : Option String := none
  rateLimitRemaining : Option String := none
  deriving DecidableEq

/-- The account's control row, of which the handler writes one field. -/
structure Control where
  retryAfter : Option Moment
  deriving DecidableEq

structure Backoff where
  backoffSeconds : ℕ := 1
  retryAfter : Option Moment := none
  control : Option Control := none
  deriving DecidableEq

/-- A quotient rounded to a double, ties to even. -/
def double (x : ℚ) : ℚ :=
  if x = 0 then 0 else Rounding.quantize .halfEven (2 ^ (Int.log 2 |x| - 52)) x

def totalSeconds (microseconds : ℤ) : ℚ := double (microseconds / 1000000)

/-- The whole seconds from `now` until a time, as the handler counts them. -/
def secondsUntil (now time : Instant) : ℤ := Rounding.toIntegral .down (totalSeconds (time - now))

/-- `now` plus a number of seconds; it overflows where no datetime is left. -/
def later (now : Moment) (seconds : ℤ) : Except TimeError Moment :=
  if fits : Representable (now.time + seconds * second) then .ok ⟨_, fits⟩ else .error .overflow

/-- The seconds that the C library's `gmtime` converts: its year is a 32-bit integer. -/
abbrev Convertible (seconds : ℤ) : Prop :=
  -67768040609740800 ≤ seconds ∧ seconds ≤ 67768036191676799

/-- A POSIX timestamp in microseconds: the fraction of its seconds is scaled as a double. -/
def microseconds (value : ℚ) : Instant :=
  let whole := Rounding.toIntegral .down value
  whole * second + Rounding.toIntegral .halfEven (double ((value - whole) * 1000000))

/-- A POSIX timestamp to a datetime. Its whole seconds pass through a 64-bit `time_t` and
`gmtime`, whose failure is an OS error. -/
def fromTimestamp : Double → Except TimeError Moment
  | .nan => .error .value
  | .infinite => .error .overflow
  | .finite value =>
    let time := microseconds value
    if ¬ (-2 ^ 63 ≤ time / second ∧ time / second < 2 ^ 63) then .error .overflow
    else if ¬ Convertible (time / second) then .error .os
    else if fits : Representable time then .ok ⟨time, fits⟩
    else .error .value

/-- The wait a `Retry-After` asks for: a number of seconds, or until a date. -/
def retryAfterDelay (reader : Reader) (now : Moment) (text : String) : Option ℤ :=
  match reader.int text with
  | some seconds => some seconds
  | none =>
    match reader.date text with
    | some (.aware moment) => some (secondsUntil now.time moment.time)
    | _ => none

/-- A header that is there and not empty. -/
def header (value : Option String) : Option String := value.filter (· ≠ "")

/-- The rate limit's reset counts once the limit is used up. -/
def Response.limitReset (response : Response) : Option String :=
  if response.statusCode = 429 ∨ response.rateLimitRemaining = some "0" then
    header response.rateLimitReset
  else none

def resetDelay (reader : Reader) (now : Moment) (text : String) : Except TimeError (Option ℤ) :=
  match reader.float text with
  | none => .ok none
  | some value =>
    match fromTimestamp value with
    | .ok reset => .ok (some (secondsUntil now.time reset.time + 1))
    | .error e => if e.suppressed then .ok none else .error e

/-- The longest of the waits, in seconds. -/
def backoffDelay (reader : Reader) (now : Moment) (own : ℕ) (response : Option Response) :
    Except TimeError ℤ := do
  let delay : ℤ := own
  let delay := max delay <|
    ((response.bind fun r => header r.retryAfter).bind (retryAfterDelay reader now)).getD delay
  match response.bind Response.limitReset with
  | none => return delay
  | some text =>
    let reset ← resetDelay reader now text
    return max delay (reset.getD delay)

def Control.extend (control : Control) (next : Moment) : Control :=
  match control.retryAfter with
  | some previous => ⟨some (if previous.time < next.time then next else previous)⟩
  | none => ⟨some next⟩

/-- What the handler writes: the next back-off, and the wait in memory and in the account's row. -/
def Backoff.waitUntil (state : Backoff) (next : Moment) : Backoff where
  backoffSeconds := min 60 (state.backoffSeconds * 2)
  retryAfter := some next
  control := state.control.map (·.extend next)

/-- The error handler of a broker request; where it raises, nothing was written. -/
def httpError (reader : Reader) (state : Backoff) (response : Option Response) (now : Moment) :
    Except TimeError Backoff := do
  let delay ← backoffDelay reader now state.backoffSeconds response
  let next ← later now (max 1 delay)
  return state.waitUntil next

/-- The waits that compete: the engine's own, the `Retry-After`'s and the rate limit's. -/
inductive Waits (reader : Reader) (own : ℕ) (response : Option Response) (now : Moment) : ℤ → Prop where
  | own : Waits reader own response now (max 1 own)
  | asked {r text seconds} (answered : response = some r) (named : header r.retryAfter = some text)
      (read : retryAfterDelay reader now text = some seconds) : Waits reader own response now seconds
  | reset {r text value moment} (answered : response = some r) (named : r.limitReset = some text)
      (read : reader.float text = some value) (converted : fromTimestamp value = .ok moment) :
      Waits reader own response now (secondsUntil now.time moment.time + 1)

/-- A used-up rate limit whose reset time the C library fails on. -/
def Unconvertible (reader : Reader) (response : Option Response) : Prop :=
  ∃ r ∈ response, ∃ text ∈ r.limitReset, ∃ value ∈ reader.float text, fromTimestamp value = .error .os

section handler

variable {reader : Reader} {own : ℕ} {response : Option Response} {now : Moment}

theorem resetDelay_ok {text : String} {delay : Option ℤ} (read : resetDelay reader now text = .ok delay)
    (seconds : ℤ) : delay = some seconds ↔ ∃ value moment, reader.float text = some value ∧
      fromTimestamp value = .ok moment ∧ seconds = secondsUntil now.time moment.time + 1 := by
  unfold resetDelay at read
  cases float : reader.float text with
  | none =>
    simp only [float, Except.ok.injEq] at read
    simp [← read]
  | some value =>
    cases converted : fromTimestamp value with
    | ok moment =>
      simp only [float, converted, Except.ok.injEq] at read
      simp [← read, converted, eq_comm]
    | error e =>
      cases suppressed : e.suppressed with
      | true =>
        simp only [float, converted, suppressed, if_true, Except.ok.injEq] at read
        simp [← read, converted]
      | false => simp [float, converted, suppressed] at read

theorem resetDelay_error_iff {text : String} : (∃ e, resetDelay reader now text = .error e) ↔
    ∃ value ∈ reader.float text, fromTimestamp value = .error .os := by
  unfold resetDelay
  cases float : reader.float text with
  | none => simp
  | some value =>
    cases converted : fromTimestamp value with
    | ok moment => simp [converted]
    | error e => cases e <;> simp [TimeError.suppressed, converted]

/-- The wait asked for by the header of a response that has one. -/
def askedDelay (reader : Reader) (now : Moment) (response : Option Response) : Option ℤ :=
  (response.bind fun r => header r.retryAfter).bind (retryAfterDelay reader now)

theorem askedDelay_some {seconds : ℤ} : askedDelay reader now response = some seconds ↔
    ∃ r text, response = some r ∧ header r.retryAfter = some text ∧
      retryAfterDelay reader now text = some seconds := by
  simp only [askedDelay, Option.bind_eq_some_iff]
  constructor
  · rintro ⟨text, ⟨r, answered, named⟩, read⟩
    exact ⟨r, text, answered, named, read⟩
  · rintro ⟨r, text, answered, named, read⟩
    exact ⟨text, ⟨r, answered, named⟩, read⟩

/-- The rate limit's wait, where the handler does not fail on its reset. -/
def limitDelay (reader : Reader) (now : Moment) (response : Option Response) :
    Except TimeError (Option ℤ) :=
  match response.bind Response.limitReset with
  | none => .ok none
  | some text => resetDelay reader now text

theorem limitDelay_ok {limit : Option ℤ} (read : limitDelay reader now response = .ok limit)
    (seconds : ℤ) : limit = some seconds ↔ ∃ r text value moment, response = some r ∧
      r.limitReset = some text ∧ reader.float text = some value ∧ fromTimestamp value = .ok moment ∧
      seconds = secondsUntil now.time moment.time + 1 := by
  unfold limitDelay at read
  cases named : response.bind Response.limitReset with
  | none =>
    simp only [named, Except.ok.injEq] at read
    subst read
    simp only [reduceCtorEq, false_iff, not_exists]
    rintro r text value moment ⟨answered, shown, -⟩
    simp [answered, shown] at named
  | some text =>
    simp only [named] at read
    obtain ⟨r, answered, shown⟩ := Option.bind_eq_some_iff.mp named
    rw [resetDelay_ok read]
    constructor
    · rintro ⟨value, moment, float, converted, wait⟩
      exact ⟨r, text, value, moment, answered, shown, float, converted, wait⟩
    · rintro ⟨r', text', value, moment, answered', shown', float, converted, wait⟩
      obtain rfl := Option.some.inj (answered.symm.trans answered')
      obtain rfl := Option.some.inj (shown.symm.trans shown')
      exact ⟨value, moment, float, converted, wait⟩

theorem limitDelay_error_iff : (∃ e, limitDelay reader now response = .error e) ↔
    Unconvertible reader response := by
  unfold limitDelay
  constructor
  · intro failed
    cases named : response.bind Response.limitReset with
    | none => simp [named] at failed
    | some text =>
      simp only [named] at failed
      obtain ⟨r, answered, shown⟩ := Option.bind_eq_some_iff.mp named
      exact ⟨r, answered, text, shown, resetDelay_error_iff.mp failed⟩
  · rintro ⟨r, answered, text, shown, failed⟩
    rw [Option.bind_eq_some_iff.mpr ⟨r, answered, shown⟩]
    exact resetDelay_error_iff.mpr failed

theorem waits_iff {limit : Option ℤ} (read : limitDelay reader now response = .ok limit) {seconds : ℤ} :
    Waits reader own response now seconds ↔
      seconds = max 1 (own : ℤ) ∨ askedDelay reader now response = some seconds ∨ limit = some seconds := by
  constructor
  · intro wait
    cases wait with
    | own => exact .inl rfl
    | asked answered named shown => exact .inr (.inl (askedDelay_some.mpr ⟨_, _, answered, named, shown⟩))
    | reset answered named float converted =>
      exact .inr (.inr ((limitDelay_ok read _).mpr ⟨_, _, _, _, answered, named, float, converted, rfl⟩))
  · rintro (rfl | asked | limited)
    · exact .own
    · obtain ⟨r, text, answered, named, shown⟩ := askedDelay_some.mp asked
      exact .asked answered named shown
    · obtain ⟨r, text, value, moment, answered, named, float, converted, rfl⟩ :=
        (limitDelay_ok read seconds).mp limited
      exact .reset answered named float converted

theorem backoffDelay_eq : backoffDelay reader now own response =
    (limitDelay reader now response).map fun limit =>
      let delay := max (own : ℤ) ((askedDelay reader now response).getD own)
      limit.elim delay (max delay) := by
  unfold backoffDelay limitDelay
  cases response.bind Response.limitReset with
  | none => rfl
  | some text =>
    simp only [askedDelay, bind, Except.bind, pure, Except.pure, Except.map]
    cases resetDelay reader now text with
    | error e => rfl
    | ok limit => cases limit <;> simp

/-- The handler waits for the longest of the competing waits. -/
theorem backoffDelay_greatest {delay : ℤ} (computed : backoffDelay reader now own response = .ok delay) :
    IsGreatest {seconds | Waits reader own response now seconds} (max 1 delay) := by
  rw [backoffDelay_eq] at computed
  cases read : limitDelay reader now response with
  | error e => simp [read, Except.map] at computed
  | ok limit =>
    simp only [read, Except.map, Except.ok.injEq] at computed
    subst computed
    constructor
    · apply (waits_iff read).mpr
      cases askedDelay reader now response <;> cases limit <;>
        simp only [Option.getD, Option.elim, Option.some.injEq, reduceCtorEq] <;> omega
    · intro seconds wait
      replace wait := (waits_iff read).mp wait
      revert wait
      cases askedDelay reader now response <;> cases limit <;>
        simp only [Option.getD, Option.elim, Option.some.injEq, reduceCtorEq, or_false, false_or] <;>
        omega

theorem backoffDelay_error_iff : (∃ e, backoffDelay reader now own response = .error e) ↔
    Unconvertible reader response := by
  rw [backoffDelay_eq, ← limitDelay_error_iff]
  cases limitDelay reader now response <;> simp [Except.map]

/-- The time that a well-formed `Retry-After` asks to wait for. -/
inductive AskedTime (reader : Reader) (response : Option Response) (now : Moment) : Instant → Prop where
  | seconds {r text seconds} (answered : response = some r) (named : header r.retryAfter = some text)
      (read : reader.int text = some seconds) :
      AskedTime reader response now (now.time + seconds * second)
  | date {r text moment} (answered : response = some r) (named : header r.retryAfter = some text)
      (word : reader.int text = none) (read : reader.date text = some (.aware moment)) :
      AskedTime reader response now moment.time

/-- The handler returns, and the time it stored is no earlier than the one stored before, a second
from now, and the time that the response asked for. -/
def Contains (reader : Reader) (state : Backoff) (response : Option Response) (now : Moment) : Prop :=
  ∃ after stored, httpError reader state response now = .ok after ∧
    after.control = some ⟨some stored⟩ ∧
    (∀ control ∈ state.control, ∀ previous ∈ control.retryAfter, previous.time ≤ stored.time) ∧
    now.time + second ≤ stored.time ∧
    ∀ time, AskedTime reader response now time → Representable time → time ≤ stored.time

/-- When the handler does so. -/
structure Containable (reader : Reader) (state : Backoff) (response : Option Response) (now : Moment) :
    Prop where
  row : state.control.isSome
  reset : ¬ Unconvertible reader response
  fits : ∀ seconds, Waits reader state.backoffSeconds response now seconds →
    now.time + seconds * second ≤ maxTime
  dated : ∀ r ∈ response, ∀ text ∈ header r.retryAfter, reader.int text = none →
    ∀ moment, reader.date text = some (.aware moment) →
      (∃ seconds, Waits reader state.backoffSeconds response now seconds ∧
        moment.time ≤ now.time + seconds * second) ∨
      ∃ control ∈ state.control, ∃ previous ∈ control.retryAfter, moment.time ≤ previous.time

theorem Control.extend_stored (control : Control) (next : Moment) :
    ∃ stored, control.extend next = ⟨some stored⟩ ∧
      ∀ time, time ≤ stored.time ↔ time ≤ next.time ∨ ∃ previous ∈ control.retryAfter, time ≤ previous.time := by
  unfold Control.extend
  cases control.retryAfter with
  | none => exact ⟨next, rfl, by simp⟩
  | some previous =>
    refine ⟨_, rfl, fun time => ?_⟩
    simp only [Option.mem_def, Option.some.injEq, exists_eq_left']
    split <;> grind

theorem later_ok {seconds : ℤ} {next : Moment} (added : later now seconds = .ok next) :
    next.time = now.time + seconds * second := by
  unfold later at added
  split at added
  · simp only [Except.ok.injEq] at added
    rw [← added]
  · cases added

theorem later_iff {seconds : ℤ} (positive : 0 < seconds) :
    (∃ next, later now seconds = .ok next) ↔ now.time + seconds * second ≤ maxTime := by
  unfold later
  split
  next fits => exact ⟨fun _ => fits.2, fun _ => ⟨_, rfl⟩⟩
  next short =>
    simp only [reduceCtorEq, exists_false, false_iff]
    intro bounded
    apply short ⟨?_, bounded⟩
    have : 0 ≤ seconds * second := by
      apply mul_nonneg positive.le
      decide
    exact le_trans now.representable.1 (le_add_of_nonneg_right this)

theorem greatest_le {longest seconds : ℤ}
    (greatest : IsGreatest {seconds | Waits reader own response now seconds} longest)
    (wait : Waits reader own response now seconds) :
    now.time + seconds * second ≤ now.time + longest * second := by
  have longer : seconds * second ≤ longest * second :=
    mul_le_mul_of_nonneg_right (greatest.2 wait) (by decide)
  gcongr

theorem httpError_ok_iff {state after : Backoff} : httpError reader state response now = .ok after ↔
    ∃ delay next, backoffDelay reader now state.backoffSeconds response = .ok delay ∧
      later now (max 1 delay) = .ok next ∧ after = state.waitUntil next := by
  unfold httpError
  cases backoffDelay reader now state.backoffSeconds response with
  | error e => simp [bind, Except.bind]
  | ok delay =>
    cases added : later now (max 1 delay) with
    | error e => simp [added, bind, Except.bind]
    | ok next => simp [added, bind, Except.bind, pure, Except.pure, eq_comm]

theorem AskedTime.wait {time : Instant} (asked : AskedTime reader response now time) :
    (∃ seconds, Waits reader own response now seconds ∧ time = now.time + seconds * second) ∨
    ∃ r ∈ response, ∃ text ∈ header r.retryAfter, reader.int text = none ∧
      ∃ moment, reader.date text = some (.aware moment) ∧ time = moment.time := by
  cases asked with
  | seconds answered named read =>
    refine .inl ⟨_, .asked answered named ?_, rfl⟩
    rw [retryAfterDelay, read]
  | date answered named word read => exact .inr ⟨_, answered, _, named, word, _, read, rfl⟩

end handler

/-- The handler does what it should exactly when the account has its row, no wait ends past the last
datetime, the C library converts the rate limit's reset, and a date asked for is covered in spite of
the fraction of a second its wait loses. -/
theorem httpError_contains_iff (reader : Reader) (state : Backoff) (response : Option Response)
    (now : Moment) : Contains reader state response now ↔ Containable reader state response now := by
  constructor
  · rintro ⟨after, stored, returned, written, -, -, asked⟩
    obtain ⟨delay, next, computed, added, rfl⟩ := httpError_ok_iff.mp returned
    obtain ⟨control, row, written⟩ := Option.map_eq_some_iff.mp written
    obtain ⟨stored', extended, covers⟩ := control.extend_stored next
    obtain rfl : stored' = stored := by
      rw [extended] at written
      simpa using written
    have greatest := backoffDelay_greatest computed
    have fits := (later_iff (by omega)).mp ⟨next, added⟩
    constructor
    · simp [row]
    · intro failed
      obtain ⟨e, failed⟩ := backoffDelay_error_iff.mpr failed
      exact absurd (failed.symm.trans computed) (by simp)
    · intro seconds wait
      exact le_trans (greatest_le greatest wait) fits
    · intro r answered text named word moment read
      rcases (covers _).mp (asked _ (.date answered named word read) moment.representable) with
        soon | earlier
      · exact .inl ⟨_, greatest.1, later_ok added ▸ soon⟩
      · exact .inr ⟨control, row, earlier⟩
  · rintro ⟨row, reset, fits, dated⟩
    obtain ⟨control, row⟩ := Option.isSome_iff_exists.mp row
    cases computed : backoffDelay reader now state.backoffSeconds response with
    | error e => exact absurd (backoffDelay_error_iff.mp ⟨e, computed⟩) reset
    | ok delay =>
      have greatest := backoffDelay_greatest computed
      obtain ⟨next, added⟩ := (later_iff (by omega)).mpr (fits _ greatest.1)
      obtain ⟨stored, extended, covers⟩ := control.extend_stored next
      have reaches : ∀ seconds, Waits reader state.backoffSeconds response now seconds →
          now.time + seconds * second ≤ stored.time := by
        intro seconds wait
        apply (covers _).mpr (.inl ?_)
        rw [later_ok added]
        exact greatest_le greatest wait
      refine ⟨state.waitUntil next, stored, httpError_ok_iff.mpr ⟨delay, next, computed, added, rfl⟩,
        ?_, ?_, ?_, ?_⟩
      · simp [Backoff.waitUntil, row, extended]
      · intro control' row' previous earlier
        obtain rfl := Option.some.inj (row.symm.trans row')
        exact (covers _).mpr (.inr ⟨previous, earlier, le_rfl⟩)
      · have least : (1 : ℤ) * second ≤ max 1 (state.backoffSeconds : ℤ) * second :=
          mul_le_mul_of_nonneg_right (le_max_left _ _) (by decide)
        have own := reaches _ .own
        linarith
      · intro time asked _
        rcases asked.wait with ⟨seconds, wait, rfl⟩ | ⟨r, answered, text, named, word, moment, read, rfl⟩
        · exact reaches seconds wait
        · rcases dated r answered text named word moment read with ⟨seconds, wait, soon⟩ | ⟨control', row', earlier⟩
          · exact le_trans soon (reaches seconds wait)
          · obtain rfl := Option.some.inj (row.symm.trans row')
            exact (covers _).mpr (.inr earlier)

/-- The reading of plain integers, without dates or floats. -/
def plainReader : Reader where
  int := fun text =>
    let (negative, ds) := Numeral.sign text.toList
    if ds ≠ [] ∧ ds.all Numeral.isDigit then
      some (if negative then -(Numeral.natural ds : ℤ) else Numeral.natural ds)
    else none
  float := fun _ => none
  date := fun _ => none

def midnight : Moment := ⟨1767225600 * second, by decide⟩

/-- A delay of 99999999999999 seconds ends past the year 9999, and the handler raises. -/
theorem httpError_overflow : ¬ Contains plainReader { control := some ⟨none⟩ }
    (some { statusCode := 429, retryAfter := some "99999999999999" }) midnight := by
  rintro ⟨after, stored, returned, -⟩
  have raised : httpError plainReader { control := some ⟨none⟩ }
      (some { statusCode := 429, retryAfter := some "99999999999999" }) midnight = .error .overflow := by
    decide +kernel
  exact absurd (raised.symm.trans returned) (by simp)

end TradeAgent.Scalp
