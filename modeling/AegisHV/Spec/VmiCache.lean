import AegisHV.Spec.VmiX86

/-! The translation cache (`vmi_cache.rs`): results of page walks under keys of a VM, a mode, an
address-space root and a virtual page, evicted in the order of insertion. -/

namespace AegisHV.Vmi.Cache

open Sys

def X86_CR3_BASE_MASK : ℕ := complement 0xfff

inductive TranslationCacheError where
  | invalidCapacity (maxEntries : ℕ)
  | invalidPageSize (pageSize : ℕ)

def TranslationCacheError.display : TranslationCacheError → String
  | .invalidCapacity maxEntries =>
    s!"translation cache capacity must be greater than zero, got {maxEntries}"
  | .invalidPageSize pageSize =>
    s!"translation cache page size must be a non-zero power of two, got {pageSize}"

inductive Arm64CacheGranule where
  | size4K
  | size16K
  | size64K
  deriving DecidableEq

inductive TranslationMode where
  | x86_64FourLevel
  | x86_64La57
  | arm64Stage1 (granule : Arm64CacheGranule)
  deriving DecidableEq

inductive AddressSpaceRoot where
  | x86Cr3 (base : ℕ)
  | arm64Ttbr0 (base : ℕ) (asid : Option ℕ)
  | arm64Ttbr1 (base : ℕ) (asid : Option ℕ)
  | explicit (id : ℕ) (asid : Option ℕ)
  deriving DecidableEq

namespace AddressSpaceRoot

/-- `AddressSpaceRoot::x86_cr3` -/
def ofCr3 (cr3 : ℕ) : AddressSpaceRoot := .x86Cr3 (cr3 &&& X86_CR3_BASE_MASK)

def asid : AddressSpaceRoot → Option ℕ
  | .x86Cr3 _ => none
  | .arm64Ttbr0 _ asid | .arm64Ttbr1 _ asid | .explicit _ asid => asid

end AddressSpaceRoot

structure TranslationAccess where
  user : Bool
  write : Bool
  execute : Bool
  deriving DecidableEq

structure TranslationCacheKey where
  vm : VmId
  mode : TranslationMode
  root : AddressSpaceRoot
  virtualPage : ℕ
  pageSize : ℕ
  access : TranslationAccess
  deriving DecidableEq

def validatePageSize (pageSize : ℕ) : Except TranslationCacheError Unit :=
  failIf (pageSize == 0 || !decide pageSize.isPowerOfTwo) (.invalidPageSize pageSize)

def TranslationCacheKey.forGva (vm : VmId) (mode : TranslationMode) (root : AddressSpaceRoot)
    (gva pageSize : ℕ) (access : TranslationAccess) :
    Except TranslationCacheError TranslationCacheKey := do
  validatePageSize pageSize
  return { vm, mode, root, virtualPage := gva / pageSize, pageSize, access }

structure TranslationCacheValue where
  physicalPage : ℕ
  pageSize : ℕ
  readable : Bool
  writable : Bool
  user : Bool
  executable : Bool

namespace TranslationCacheValue

/-- `TranslationCacheValue::new` -/
def make (physicalPage pageSize : ℕ) (readable writable user executable : Bool) :
    Except TranslationCacheError TranslationCacheValue := do
  validatePageSize pageSize
  return { physicalPage := physicalPage &&& complement (pageSize - 1), pageSize, readable,
           writable, user, executable }

def fromTranslation (result : TranslationResult) :
    Except TranslationCacheError TranslationCacheValue :=
  make result.gpa result.pageSize result.readable result.writable result.user result.executable

def toResult (self : TranslationCacheValue) (gva : ℕ) : TranslationResult where
  gpa := self.physicalPage ||| (gva &&& (self.pageSize - 1))
  readable := self.readable
  writable := self.writable
  executable := self.executable
  user := self.user
  pageSize := self.pageSize

end TranslationCacheValue

structure TranslationCacheEntry where
  key : TranslationCacheKey
  value : TranslationCacheValue

structure TranslationCache where
  maxEntries : ℕ
  entries : List TranslationCacheEntry

def cacheRecordError (key : TranslationCacheKey) (err : TranslationCacheError) :
    TranslationError :=
  .translationFailed (saturatingMul key.virtualPage key.pageSize) err.display

def cachePageSizeMismatch (key : TranslationCacheKey) (resultPageSize : ℕ) : TranslationError :=
  .translationFailed (saturatingMul key.virtualPage key.pageSize)
    (s!"translation cache key page size {key.pageSize} does not match " ++
      s!"translation result page size {resultPageSize}")

namespace TranslationCache

/-- `TranslationCache::new` -/
def make (maxEntries : ℕ) : Except TranslationCacheError TranslationCache := do
  failIf (maxEntries == 0) (.invalidCapacity maxEntries)
  return { maxEntries, entries := [] }

def lookup (self : TranslationCache) (key : TranslationCacheKey) : Option TranslationCacheValue :=
  (self.entries.find? fun entry => entry.key = key).map (·.value)

def lookupResult (self : TranslationCache) (key : TranslationCacheKey) (gva : ℕ) :
    Option TranslationResult :=
  if key.pageSize = 0 then none
  else if gva / key.pageSize ≠ key.virtualPage then none
  else ((self.lookup key).filter fun value => value.pageSize = key.pageSize).map (·.toResult gva)

/-- The value of the first entry of the key is replaced. -/
def replaceFirst (key : TranslationCacheKey) (value : TranslationCacheValue) :
    List TranslationCacheEntry → List TranslationCacheEntry
  | [] => []
  | entry :: rest =>
    if entry.key = key then { entry with value } :: rest
    else entry :: replaceFirst key value rest

def insert (self : TranslationCache) (key : TranslationCacheKey) (value : TranslationCacheValue) :
    TranslationCache :=
  if self.entries.any fun entry => entry.key = key then
    { self with entries := replaceFirst key value self.entries }
  else
    let kept := if self.entries.length = self.maxEntries then self.entries.drop 1 else self.entries
    { self with entries := kept ++ [{ key, value }] }

def insertTranslationResult (key : TranslationCacheKey)
    (result : Except TranslationError TranslationResult) :
    Op TranslationCache TranslationError Unit := do
  let result ← Op.lift result
  Op.lift (failIf (result.pageSize != key.pageSize) (cachePageSizeMismatch key result.pageSize))
  let value ← Op.lift ((TranslationCacheValue.fromTranslation result).mapError (cacheRecordError key))
  let self ← Op.read
  Op.write (self.insert key value)

/-- The number of entries that are dropped, with the cache without them. -/
def retainCount (self : TranslationCache) (keep : TranslationCacheEntry → Bool) :
    ℕ × TranslationCache :=
  let entries := self.entries.filter keep
  (self.entries.length - entries.length, { self with entries })

def invalidateVmid (self : TranslationCache) (vm : VmId) : ℕ × TranslationCache :=
  self.retainCount fun entry => entry.key.vm ≠ vm

def invalidateRoot (self : TranslationCache) (vm : VmId) (root : AddressSpaceRoot) :
    ℕ × TranslationCache :=
  self.retainCount fun entry => entry.key.vm ≠ vm ∨ entry.key.root ≠ root

def invalidateCr3 (self : TranslationCache) (vm : VmId) (cr3 : ℕ) : ℕ × TranslationCache :=
  self.retainCount fun entry => entry.key.vm ≠ vm ∨ entry.key.root ≠ .ofCr3 cr3

def invalidateAsid (self : TranslationCache) (vm : VmId) (asid : ℕ) : ℕ × TranslationCache :=
  self.retainCount fun entry => entry.key.vm ≠ vm ∨ entry.key.root.asid ≠ some asid

def flush (self : TranslationCache) : ℕ × TranslationCache :=
  (self.entries.length, { self with entries := [] })

end TranslationCache

/-! A client that caches the x86 translations of one memory. -/

def modeOf : X86.PagingMode → TranslationMode
  | .fourLevel => .x86_64FourLevel
  | .la57 => .x86_64La57

inductive Call where
  | insert (vm : VmId) (mode : X86.PagingMode) (cr3 gva pageSize : ℕ) (access : TranslationAccess)
  | invalidateVmid (vm : VmId)
  | invalidateRoot (vm : VmId) (root : AddressSpaceRoot)
  | invalidateCr3 (vm : VmId) (cr3 : ℕ)
  | invalidateAsid (vm : VmId) (asid : ℕ)
  | flush

inductive Reply where
  | inserted
  | refusedKey (error : TranslationCacheError)
  | refused (error : TranslationError)
  | dropped (count : ℕ)

/-- A translation is cached under the key of the same VM, mode, CR3 and address. -/
def insertTranslation (memory : GuestMemory) (cache : TranslationCache) (vm : VmId)
    (mode : X86.PagingMode) (cr3 gva pageSize : ℕ) (access : TranslationAccess) :
    Reply × TranslationCache :=
  match TranslationCacheKey.forGva vm (modeOf mode) (.ofCr3 cr3) gva pageSize access with
  | .error e => (.refusedKey e, cache)
  | .ok key => Op.reply (fun _ => .inserted) .refused
      (TranslationCache.insertTranslationResult key
        (X86.translateX86_64 memory vm ⟨some cr3⟩ gva mode)) cache

def dropCount (out : ℕ × TranslationCache) : Reply × TranslationCache :=
  (.dropped out.1, out.2)

def step (memory : GuestMemory) (cache : TranslationCache) : Call → Reply × TranslationCache
  | .insert vm mode cr3 gva pageSize access =>
    insertTranslation memory cache vm mode cr3 gva pageSize access
  | .invalidateVmid vm => dropCount (cache.invalidateVmid vm)
  | .invalidateRoot vm root => dropCount (cache.invalidateRoot vm root)
  | .invalidateCr3 vm cr3 => dropCount (cache.invalidateCr3 vm cr3)
  | .invalidateAsid vm asid => dropCount (cache.invalidateAsid vm asid)
  | .flush => dropCount cache.flush

/-! Any sequence of calls, against what the cache is for: a bounded map that gives up the key it
has held longest. -/

inductive CacheCall where
  | insert (key : TranslationCacheKey) (value : TranslationCacheValue)
  | insertTranslationResult (key : TranslationCacheKey)
    (result : Except TranslationError TranslationResult)
  | lookup (key : TranslationCacheKey)
  | invalidateVmid (vm : VmId)
  | invalidateRoot (vm : VmId) (root : AddressSpaceRoot)
  | invalidateCr3 (vm : VmId) (cr3 : ℕ)
  | invalidateAsid (vm : VmId) (asid : ℕ)
  | flush

inductive CacheReply where
  | inserted
  | refused (error : TranslationError)
  | found (value : Option TranslationCacheValue)
  | dropped (count : ℕ)

def cacheStep (cache : TranslationCache) : CacheCall → CacheReply × TranslationCache
  | .insert key value => (.inserted, cache.insert key value)
  | .insertTranslationResult key result => Op.reply (fun _ => .inserted) .refused
      (TranslationCache.insertTranslationResult key result) cache
  | .lookup key => (.found (cache.lookup key), cache)
  | .invalidateVmid vm => (cache.invalidateVmid vm).map .dropped id
  | .invalidateRoot vm root => (cache.invalidateRoot vm root).map .dropped id
  | .invalidateCr3 vm cr3 => (cache.invalidateCr3 vm cr3).map .dropped id
  | .invalidateAsid vm asid => (cache.invalidateAsid vm asid).map .dropped id
  | .flush => cache.flush.map .dropped id

/-- What a call inserts: a result only if its page has the size of the key's. -/
def CacheCall.insertion : CacheCall → Option (TranslationCacheKey × TranslationCacheValue)
  | .insert key value => some (key, value)
  | .insertTranslationResult key (.ok result) =>
    if result.pageSize = key.pageSize then
      (TranslationCacheValue.fromTranslation result).toOption.map (key, ·)
    else none
  | _ => none

/-- The keys that an invalidation is about. -/
def CacheCall.scope : CacheCall → Option (TranslationCacheKey → Bool)
  | .invalidateVmid vm => some fun key => key.vm = vm
  | .invalidateRoot vm root => some fun key => key.vm = vm ∧ key.root = root
  | .invalidateCr3 vm cr3 => some fun key => key.vm = vm ∧ key.root = .ofCr3 cr3
  | .invalidateAsid vm asid => some fun key => key.vm = vm ∧ key.root.asid = some asid
  | .flush => some fun _ => true
  | _ => none

/-- The value that was inserted last under each key held, with the number of the call that
inserted the key. -/
abbrev Held := TranslationCacheKey → Option (ℕ × TranslationCacheValue)

namespace Held

def keys (held : Held) : Set TranslationCacheKey := { key | held key ≠ none }

/-- A key that is held gets the new value and keeps its place. Else it is added, and the key whose
insertion is oldest makes room for it if there is none. -/
inductive Insert (capacity now : ℕ) (held : Held) (key : TranslationCacheKey)
    (value : TranslationCacheValue) : Held → Prop
  | again {since old} (h : held key = some (since, old)) :
      Insert capacity now held key value (Function.update held key (some (since, value)))
  | room (h : held key = none) (hroom : held.keys.ncard < capacity) :
      Insert capacity now held key value (Function.update held key (some (now, value)))
  | evict {oldest since old} (h : held key = none) (hfull : held.keys.ncard = capacity)
      (hget : held oldest = some (since, old))
      (hfirst : ∀ k n v, held k = some (n, v) → since ≤ n) :
      Insert capacity now held key value
        (Function.update (Function.update held oldest none) key (some (now, value)))

inductive Step (capacity now : ℕ) (held : Held) : CacheCall → CacheReply → Held → Prop
  | inserted {c key value held'} (hc : c.insertion = some (key, value))
      (h : held.Insert capacity now key value held') : Step capacity now held c .inserted held'
  | refused {key result e} (hc : (CacheCall.insertTranslationResult key result).insertion = none) :
      Step capacity now held (.insertTranslationResult key result) (.refused e) held
  | found {key} : Step capacity now held (.lookup key) (.found ((held key).map Prod.snd)) held
  | invalidated {c scope} (hc : c.scope = some scope) :
      Step capacity now held c (.dropped { key ∈ held.keys | scope key }.ncard)
        fun key => if scope key then none else held key

/-- What is held after a log of calls and their replies. -/
inductive After (capacity : ℕ) : List (CacheCall × CacheReply) → Held → Prop
  | start : After capacity [] fun _ => none
  | step {log held c r held'} (h : After capacity log held)
      (hstep : held.Step capacity log.length c r held') : After capacity (log ++ [(c, r)]) held'

end Held

/-- The table at which the walk of an entry starts. -/
def walkRoot : AddressSpaceRoot → Option ℕ
  | .x86Cr3 base => some (base &&& X86.CR3_BASE_MASK)
  | _ => none

/-- A hit under a key that was built like those of the inserts is what the walk would return. -/
def HitsRight (memory : GuestMemory) (cache : TranslationCache) : Prop :=
  ∀ vm mode cr3 gva₀ pageSize access key gva result,
    TranslationCacheKey.forGva vm (modeOf mode) (.ofCr3 cr3) gva₀ pageSize access = .ok key →
    cache.lookupResult key gva = some result →
      X86.translateX86_64 memory vm ⟨some cr3⟩ gva mode = .ok result

/-- No entry of the VM is left that was walked from the table of this CR3. -/
def Cleared (cache : TranslationCache) (vm : VmId) (cr3 : ℕ) : Prop :=
  ∀ entry ∈ cache.entries, entry.key.vm = vm →
    walkRoot entry.key.root ≠ some (cr3 &&& X86.CR3_BASE_MASK)

/-- No entry of the VM agrees with the CR3 in bits 12 to 51 and differs from it above. -/
def NoTwin (cache : TranslationCache) (vm : VmId) (cr3 : ℕ) : Prop :=
  ∀ entry ∈ cache.entries, entry.key.vm = vm → ∀ base, entry.key.root = .x86Cr3 base →
    base % 2 ^ 52 / 2 ^ 12 = cr3 % 2 ^ 52 / 2 ^ 12 → base / 2 ^ 52 = cr3 / 2 ^ 52

end AegisHV.Vmi.Cache
