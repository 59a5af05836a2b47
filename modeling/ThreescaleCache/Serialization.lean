import ThreescaleCache.Host

namespace ThreescaleCache

/-! The bytes of the values in shared data. Applications and locks are in the
fixed-width `bincode` format: 8 bytes for a length or a `u64`, 4 for a variant
index or a `u32`, 1 for the tag of an `Option`. -/

/-- The lowest `width` bytes of a number, the lowest first. -/
def littleEndian : Nat → Nat → List UInt8
  | 0, _ => []
  | width + 1, n => UInt8.ofNat n :: littleEndian width (n / 256)

def serializedList {α : Type} (item : α → List UInt8) (items : List α) : List UInt8 :=
  littleEndian 8 items.length ++ items.flatMap item

/-- `str::as_bytes`. -/
def Str.bytes (s : Str) : List UInt8 := s.flatMap String.utf8EncodeChar

def Str.serialized (s : Str) : List UInt8 := littleEndian 8 s.len ++ s.bytes

def Duration.serialized (d : Duration) : List UInt8 :=
  littleEndian 8 (d.nanos / 10 ^ 9) ++ littleEndian 4 (d.nanos % 10 ^ 9)

def Period.serialized : Period → List UInt8
  | .minute => littleEndian 4 0
  | .hour => littleEndian 4 1
  | .day => littleEndian 4 2
  | .week => littleEndian 4 3
  | .month => littleEndian 4 4
  | .year => littleEndian 4 5
  | .eternity => littleEndian 4 6

def UsageReport.serialized (report : UsageReport) : List UInt8 :=
  report.periodWindow.start.serialized ++ report.periodWindow.end.serialized ++
    report.periodWindow.window.serialized ++ littleEndian 8 report.leftHits.toNat ++
    littleEndian 8 report.maxValue.toNat

def AppIdentifier.serialized : AppIdentifier → List UInt8
  | .appId id none => littleEndian 4 0 ++ id.serialized ++ [0]
  | .appId id (some key) => littleEndian 4 0 ++ id.serialized ++ 1 :: key.serialized
  | .userKey key => littleEndian 4 1 ++ key.serialized

def Application.serialized (app : Application) : List UInt8 :=
  app.appId.serialized ++ app.serviceId.serialized ++
    serializedList (fun e => e.1.serialized ++ e.2.serialized) app.localState.entries ++
    serializedList (fun e => e.1.serialized ++ serializedList Str.serialized e.2)
      app.metricHierarchy.entries ++
    match app.appKeys with
    | none => [0]
    | some keys => 1 :: serializedList Str.serialized keys

def CalloutLockValue.serialized (value : CalloutLockValue) : List UInt8 :=
  littleEndian 4 value.ownedBy ++ serializedList
    (fun waiter => littleEndian 4 waiter.queueId ++ littleEndian 4 waiter.httpContextId) value.waiters

def SharedValue.bytes : SharedValue → List UInt8
  | .application app => app.serialized
  | .appId id => id.bytes
  | .calloutLock value => value.serialized
  | .memoryCounter size => (littleEndian 8 size.toNat).reverse

/-- `std::str::from_utf8`. -/
def fromUtf8 (bytes : List UInt8) : Option Str := bytes.toByteArray.utf8Decode?.map Array.toList

/-- The bytes of a value, read as text. -/
def SharedValue.text : SharedValue → Option Str
  | .appId id => some id
  | value => fromUtf8 value.bytes

/-- The number with these bytes, the lowest first. -/
def ofLittleEndian : List UInt8 → Nat
  | [] => 0
  | b :: rest => b.toNat + 256 * ofLittleEndian rest

/-- A number of `width` bytes is taken off. -/
def takeNumber (width : Nat) (bytes : List UInt8) : Option (Nat × List UInt8) :=
  if width ≤ bytes.length then some (ofLittleEndian (bytes.take width), bytes.drop width) else none

def takeWaiters : Nat → List UInt8 → Option (List CalloutWaiter)
  | 0, _ => some []
  | count + 1, bytes => do
    let (queueId, rest) ← takeNumber 4 bytes
    let (httpContextId, rest) ← takeNumber 4 rest
    let waiters ← takeWaiters count rest
    some ({ queueId := queueId, httpContextId := httpContextId } :: waiters)

/-- `bincode::deserialize`. Bytes that are left over are ignored. -/
def CalloutLockValue.deserialize (bytes : List UInt8) : Option CalloutLockValue := do
  let (ownedBy, rest) ← takeNumber 4 bytes
  let (count, rest) ← takeNumber 8 rest
  let waiters ← takeWaiters count rest
  some { ownedBy := ownedBy, waiters := waiters }

/-- The bytes of a value, read as a callout-lock. -/
def SharedValue.lock : SharedValue → Option CalloutLockValue
  | .calloutLock value => some value
  | value => CalloutLockValue.deserialize value.bytes

/-- The bytes of a value, read as the memory counter. -/
def SharedValue.counter : SharedValue → Option UInt64
  | .memoryCounter size => some size
  | value => if value.bytes.length = 8 then some (.ofNat (ofLittleEndian value.bytes.reverse)) else none

theorem fromUtf8_bytes (s : Str) : fromUtf8 s.bytes = some s := by
  have encoded : s.bytes.toByteArray = s.utf8Encode := rfl
  rw [fromUtf8, encoded, List.utf8Decode?_utf8Encode]
  rfl

theorem SharedValue.text_eq (value : SharedValue) : value.text = fromUtf8 value.bytes := by
  cases value with
  | appId id => exact (fromUtf8_bytes id).symm
  | application | calloutLock | memoryCounter => rfl

/-- Bytes below 128 are text. -/
theorem fromUtf8_ascii {bytes : List UInt8} (ascii : bytes.all (·.toNat < 128)) :
    (fromUtf8 bytes).isSome := by
  have encoded : Str.bytes (bytes.map fun b => Char.ofNat b.toNat) = bytes := by
    induction bytes with
    | nil => rfl
    | cons b rest ih =>
      obtain ⟨small, others⟩ := Bool.and_eq_true_iff.mp ascii
      have small := of_decide_eq_true small
      have value : (Char.ofNat b.toNat).val.toNat = b.toNat := by
        rw [Char.ofNat, dif_pos (Or.inl (by omega))]
        rfl
      have one : String.utf8EncodeChar (Char.ofNat b.toNat) = [b] := by
        simp only [String.utf8EncodeChar, value, if_pos (Nat.le_of_lt_succ small), UInt8.ofNat_toNat]
      rw [Str.bytes, List.map_cons, List.flatMap_cons, one]
      exact congrArg (b :: ·) (ih others)
  rw [← encoded, fromUtf8_bytes]
  rfl

/-- What is cached of an application without reports can be taken for a mapping. -/
example : (SharedValue.application ⟨.appId ['a'] none, ['s'], ∅, ∅, none⟩).text.isSome :=
  fromUtf8_ascii (by decide)

/-- And it can be taken for a callout-lock. -/
example : (SharedValue.application ⟨.appId ['a'] none, ['s'], ∅, ∅, none⟩).lock.isSome := by decide

/-! Lengths -/

def Str.serializedLen (s : Str) : Nat := 8 + s.len

def AppIdentifier.serializedLen : AppIdentifier → Nat
  | .appId id none => 4 + id.serializedLen + 1
  | .appId id (some key) => 4 + id.serializedLen + 1 + key.serializedLen
  | .userKey key => 4 + key.serializedLen

/-- Two durations of 12 bytes, the period and two counters. -/
def UsageReport.serializedLen (_ : UsageReport) : Nat := 12 + 12 + 4 + 8 + 8

def Application.serializedLen (app : Application) : Nat :=
  app.appId.serializedLen + app.serviceId.serializedLen +
    (8 + (app.localState.entries.map fun e => e.1.serializedLen + e.2.serializedLen).sum) +
    (8 + (app.metricHierarchy.entries.map fun e =>
      e.1.serializedLen + (8 + (e.2.map Str.serializedLen).sum)).sum) +
    match app.appKeys with
    | none => 1
    | some keys => 1 + (8 + (keys.map Str.serializedLen).sum)

def SharedValue.len : SharedValue → Nat
  | .application app => app.serializedLen
  | .appId id => id.len
  | .calloutLock value => 4 + 8 + 8 * value.waiters.length
  | .memoryCounter _ => 8

@[simp] theorem length_littleEndian (width n : Nat) : (littleEndian width n).length = width := by
  induction width generalizing n with
  | zero => rfl
  | succ width ih => simp only [littleEndian, List.length_cons, ih]

theorem length_serializedList {α : Type} {item : α → List UInt8} {size : α → Nat}
    (sized : ∀ a, (item a).length = size a) (items : List α) :
    (serializedList item items).length = 8 + (items.map size).sum := by
  simp only [serializedList, List.length_append, length_littleEndian, List.length_flatMap, sized]

@[simp] theorem Str.length_bytes (s : Str) : s.bytes.length = s.len := by
  simp only [Str.bytes, Str.len, List.length_flatMap, String.length_utf8EncodeChar]

@[simp] theorem Str.length_serialized (s : Str) : s.serialized.length = s.serializedLen := by
  simp only [Str.serialized, Str.serializedLen, List.length_append, length_littleEndian, Str.length_bytes]

@[simp] theorem UsageReport.length_serialized (report : UsageReport) :
    report.serialized.length = report.serializedLen := by
  have period : report.periodWindow.window.serialized.length = 4 := by
    cases report.periodWindow.window <;> rfl
  simp only [UsageReport.serialized, UsageReport.serializedLen, Duration.serialized, List.length_append,
    length_littleEndian, period]

@[simp] theorem AppIdentifier.length_serialized (id : AppIdentifier) :
    id.serialized.length = id.serializedLen := by
  match id with
  | .appId id none | .appId id (some key) | .userKey key =>
    simp +arith only [AppIdentifier.serialized, AppIdentifier.serializedLen, List.length_append, List.length_cons,
      List.length_nil, length_littleEndian, Str.length_serialized]

theorem Application.length_serialized (app : Application) : app.serialized.length = app.serializedLen := by
  have names := length_serializedList Str.length_serialized
  have report : ∀ e : (_ : Str) × UsageReport,
      (e.1.serialized ++ e.2.serialized).length = e.1.serializedLen + e.2.serializedLen := by
    intro e
    simp only [List.length_append, Str.length_serialized, UsageReport.length_serialized]
  have children : ∀ e : (_ : Str) × List Str, (e.1.serialized ++ serializedList Str.serialized e.2).length =
      e.1.serializedLen + (8 + (e.2.map Str.serializedLen).sum) := by
    intro e
    simp only [List.length_append, Str.length_serialized, names]
  have state := length_serializedList report app.localState.entries
  have hierarchy := length_serializedList children app.metricHierarchy.entries
  unfold Application.serialized Application.serializedLen
  simp only [List.length_append, AppIdentifier.length_serialized, Str.length_serialized, state, hierarchy]
  cases app.appKeys with
  | none => rfl
  | some keys =>
    simp only [List.length_cons, names]
    omega

/-- A value takes as many bytes as the counter of the memory is told. -/
theorem SharedValue.length_bytes (value : SharedValue) : value.bytes.length = value.len := by
  cases value with
  | application app => exact app.length_serialized
  | appId id => exact id.length_bytes
  | calloutLock value =>
    have ids : ∀ waiter : CalloutWaiter,
        (littleEndian 4 waiter.queueId ++ littleEndian 4 waiter.httpContextId).length = 8 := by
      intro waiter
      simp only [List.length_append, length_littleEndian]
    simp only [SharedValue.bytes, CalloutLockValue.serialized, SharedValue.len, List.length_append,
      length_littleEndian, length_serializedList ids, List.map_const', List.sum_replicate_nat]
    omega
  | memoryCounter size => simp only [SharedValue.bytes, SharedValue.len, List.length_reverse, length_littleEndian]

/-! What was serialized is read back. -/

theorem ofLittleEndian_littleEndian {width n : Nat} (fits : n < 256 ^ width) :
    ofLittleEndian (littleEndian width n) = n := by
  induction width generalizing n with
  | zero =>
    rw [Nat.pow_zero] at fits
    exact (Nat.lt_one_iff.mp fits).symm
  | succ width ih =>
    rw [Nat.pow_succ'] at fits
    rw [littleEndian, ofLittleEndian, ih (Nat.div_lt_of_lt_mul fits), UInt8.toNat_ofNat']
    omega

theorem takeNumber_littleEndian {width n : Nat} (fits : n < 256 ^ width) (rest : List UInt8) :
    takeNumber width (littleEndian width n ++ rest) = some (n, rest) := by
  have length := length_littleEndian width n
  rw [takeNumber, if_pos (by rw [List.length_append, length]; exact Nat.le_add_right _ _),
    List.take_left' length, List.drop_left' length, ofLittleEndian_littleEndian fits]

/-- Ids and lengths are within the widths of the source. -/
structure CalloutLockValue.Fits (value : CalloutLockValue) : Prop where
  ownedBy : value.ownedBy < 256 ^ 4
  waiters : ∀ waiter ∈ value.waiters, waiter.queueId < 256 ^ 4 ∧ waiter.httpContextId < 256 ^ 4
  length : value.waiters.length < 256 ^ 8

theorem takeWaiters_serialized {waiters : List CalloutWaiter}
    (fits : ∀ waiter ∈ waiters, waiter.queueId < 256 ^ 4 ∧ waiter.httpContextId < 256 ^ 4) (rest : List UInt8) :
    takeWaiters waiters.length (waiters.flatMap (fun waiter =>
      littleEndian 4 waiter.queueId ++ littleEndian 4 waiter.httpContextId) ++ rest) = some waiters := by
  induction waiters with
  | nil => rfl
  | cons waiter others ih =>
    obtain ⟨queue, context⟩ := fits waiter List.mem_cons_self
    have more := ih fun other member => fits other (List.mem_cons_of_mem waiter member)
    simp only [List.length_cons, takeWaiters, List.flatMap_cons, List.append_assoc,
      takeNumber_littleEndian queue, takeNumber_littleEndian context, Option.bind_eq_bind, Option.bind_some, more]

theorem CalloutLockValue.deserialize_serialized {value : CalloutLockValue} (fits : value.Fits) (rest : List UInt8) :
    deserialize (value.serialized ++ rest) = some value := by
  simp only [serialized, serializedList, deserialize, List.append_assoc, takeNumber_littleEndian fits.ownedBy,
    takeNumber_littleEndian fits.length, takeWaiters_serialized fits.waiters, Option.bind_eq_bind, Option.bind_some]

theorem SharedValue.lock_eq {value : SharedValue} (fits : ∀ lock, value = .calloutLock lock → lock.Fits) :
    value.lock = CalloutLockValue.deserialize value.bytes := by
  cases value with
  | calloutLock lock =>
    have read := CalloutLockValue.deserialize_serialized (fits lock rfl) []
    rw [List.append_nil] at read
    exact read.symm
  | application | appId | memoryCounter => rfl

theorem SharedValue.counter_eq (value : SharedValue) : value.counter =
    if value.bytes.length = 8 then some (.ofNat (ofLittleEndian value.bytes.reverse)) else none := by
  cases value with
  | memoryCounter size =>
    have length : (SharedValue.memoryCounter size).bytes.length = 8 := SharedValue.length_bytes _
    rw [if_pos length, SharedValue.bytes, List.reverse_reverse, ofLittleEndian_littleEndian size.toNat_lt]
    exact congrArg some (UInt64.ofNat_toNat).symm
  | application | appId | calloutLock => rfl

/-- An application is too long for a counter. -/
theorem SharedValue.counter_application (app : Application) : (SharedValue.application app).counter = none := by
  refine if_neg fun short => ?_
  have length := app.length_serialized
  have service : app.serviceId.serializedLen = 8 + app.serviceId.len := rfl
  unfold Application.serializedLen at length
  rw [SharedValue.bytes] at short
  omega

end ThreescaleCache
