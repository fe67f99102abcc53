/-
  AMDGPU_INFO, and the identity of the driver.

  A query names the place for its answer and how much room is there. What comes back is decided
  by a table, `InfoCall.reply`, and written only as far as there is room; a refused query writes
  nothing. The log says of a query below 64 that it was asked once, of any other each time, and
  names each failure. Over any queries this is `info_answers`: the answers are the table's, no
  byte outside the rooms is touched, and the failures can be read off the log.

  `oops_winsys_version` is asked twice, for the lengths and for the strings. `version_in_two` says
  that the second call fills what the first one told, and neither writes anywhere else.

  How the structures of amdgpu_drm.h lie in memory is a parameter, and client memory is its bytes.
-/
import OopsMesa.Lib.Bits
import OopsMesa.Winsys.Ledger

namespace OopsMesa.Winsys

open OopsMesa.Lib

/-! ## The code -/

/-- `AMDGPU_INFO_*` -/
def infoAccelWorking : UInt32 := 0x00
def infoHwIpInfo : UInt32 := 0x02
def infoHwIpCount : UInt32 := 0x03
def infoFwVersion : UInt32 := 0x0e
def infoReadMmrReg : UInt32 := 0x15
def infoDevInfo : UInt32 := 0x16
def infoMemory : UInt32 := 0x19

/-- `AMDGPU_HW_IP_GFX` -/
def hwIpGfx : UInt32 := 0

/-- `OOPS_GB_ADDR_CONFIG`, what `oops_winsys_gb_addr_config` gives. -/
def gbAddrConfig : UInt32 := 4

/-- The dword offset of GB_ADDR_CONFIG. -/
def gbAddrConfigReg : UInt32 := 0x263e

/-- `struct drm_amdgpu_info`. Every member of its union that is read here is the first word of
    its own: `read_mmr_reg.dword_offset`, `query_fw.fw_type`, `query_hw_ip.type`. -/
structure InfoRequest where
  returnPointer : UInt64
  returnSize : UInt32
  query : UInt32
  arg : UInt32
  deriving DecidableEq

/-- What a query returns: 0, or a negative errno. -/
inductive InfoRet where
  | ok
  | err (e : Errno)
  | accessRefused
  deriving DecidableEq

def InfoRet.of : Ret → InfoRet
  | .ok => .ok
  | .err e => .err e

/-- The fields of `struct drm_amdgpu_info_device` that `oops_winsys_device_info` writes. The
    others are zero. -/
structure DeviceInfo where
  family : UInt32
  externalRev : UInt32
  gpuCounterFreq : UInt32
  gartPageSize : UInt32
  virtualAddressAlignment : UInt32
  virtualAddressOffset : UInt64
  virtualAddressMax : UInt64
  highVaOffset : UInt64
  highVaMax : UInt64
  numShaderEngines : UInt32
  numShaderArraysPerEngine : UInt32
  cuActiveNumber : UInt32
  cuAoMask : UInt32
  cuBitmap : Nat → Nat → UInt32
  numRbPipes : UInt32
  enabledRbPipesMask : UInt32
  numHwGfxContexts : UInt32
  vramType : UInt32
  vramBitWidth : UInt32
  pteFragmentSize : UInt32
  idsFlags : UInt64

/-- `AMDGPU_VRAM_TYPE_GDDR6` -/
def vramTypeGddr6 : UInt32 := 9

/-- `AMDGPU_IDS_FLAGS_FUSION` -/
def idsFlagsFusion : UInt64 := 1

/-- `oops_winsys_device_info`: the description, and how many groups of it are assumed. -/
def deviceInfo : DeviceInfo × Nat :=
  ({ family := 0x8f
     externalRev := 0x82
     gpuCounterFreq := 100000
     gartPageSize := 0x4000
     virtualAddressAlignment := 0x4000
     virtualAddressOffset := 0x0000000200000000
     virtualAddressMax := 0x0000000400000000
     highVaOffset := 0x0000000400000000
     highVaMax := 0x0000002400000000
     numShaderEngines := 2
     numShaderArraysPerEngine := 2
     cuActiveNumber := 0
     cuAoMask := 0xffff
     cuBitmap := fun se sa => if se < 2 ∧ sa < 2 then 0xffff else 0
     numRbPipes := 16
     enabledRbPipesMask := 0xffff
     numHwGfxContexts := 8
     vramType := vramTypeGddr6
     vramBitWidth := 256
     pteFragmentSize := 0x200000
     idsFlags := idsFlagsFusion }, 5)

/-- The fields of `struct drm_amdgpu_info_hw_ip` that are not zero. -/
structure HwIpInfo where
  hwIpVersionMajor : UInt32
  hwIpVersionMinor : UInt32
  availableRings : UInt32

/-- The bytes of the structures of amdgpu_drm.h, none of which is empty. -/
structure Layout where
  device : DeviceInfo → List UInt8
  memory : MemoryInfo → List UInt8
  hwIp : HwIpInfo → List UInt8
  firmwareSize : Nat
  device_ne : ∀ d, device d ≠ []
  memory_ne : ∀ m, memory m ≠ []
  hwIp_ne : ∀ ip, hwIp ip ≠ []
  firmware_pos : 0 < firmwareSize

/-- The bytes of a `uint32_t`. -/
def wordBytes (w : UInt32) : List UInt8 :=
  [w.toUInt8, (w >>> 8).toUInt8, (w >>> 16).toUInt8, (w >>> 24).toUInt8]

/-- The lines that go to the log. -/
inductive InfoLine where
  | asked (query : UInt32)
  | answered (query : UInt32) (r : InfoRet)
  | noReply (query : UInt32) (pointer : Bool) (want : Nat) (room : UInt32)
  | noGbAddrConfig
  | gbAddrConfig (value : UInt32)
  | registerRefused (offset : UInt32)
  | groupsAssumed (count : Nat)
  | memoryUnbound
  | memoryNone
  | memorySize (bytes : UInt64)
  | firmware (fwType : UInt32)
  | noHwIp (type : UInt32)
  | noHwIpCount (type : UInt32)
  | notImplemented (query : UInt32)
  deriving DecidableEq

/-- Client memory, `seen` and the log. -/
structure InfoState where
  mem : Nat → UInt8
  seen : UInt64
  log : List InfoLine

def InfoState.say (s : InfoState) (line : InfoLine) : InfoState :=
  { s with log := s.log ++ [line] }

/-- `memcpy` -/
def memcpy (mem : Nat → UInt8) (dst : Nat) (src : List UInt8) : Nat → UInt8 :=
  fun x => if dst ≤ x then src.getD (x - dst) (mem x) else mem x

/-- `oops_winsys_copy_out` -/
def copyOut (s : InfoState) (request : InfoRequest) (src : List UInt8) : InfoRet × InfoState :=
  let room := request.returnSize.toNat
  let n := if src.length < room then src.length else room
  if request.returnPointer = 0 ∨ n = 0 then
    (.err .EINVAL,
      s.say (.noReply request.query (request.returnPointer ≠ 0) src.length request.returnSize))
  else (.ok, { s with mem := memcpy s.mem request.returnPointer.toNat (src.take n) })

/-- `trace_query` -/
def traceQuery (s : InfoState) (query : UInt32) : InfoState :=
  if query < 64 then
    let bit : UInt64 := 1 <<< query.toUInt64
    if s.seen &&& bit ≠ 0 then s
    else { s with seen := s.seen ||| bit, log := s.log ++ [.asked query] }
  else s.say (.asked query)

/-- The line that `oops_winsys_memory_info` writes. -/
def memoryLine : Option UInt64 → InfoLine
  | none => .memoryUnbound
  | some size => if size = 0 then .memoryNone else .memorySize size

section Query

variable (layout : Layout) (w : Shim) (directMemorySize : Option UInt64)

/-- `info_query`, while the winsys is in `w` and `sceKernelGetDirectMemorySize` answers
    `directMemorySize`. -/
def infoQuery (s : InfoState) (info : InfoRequest) : InfoRet × InfoState :=
  if info.query = infoAccelWorking then copyOut s info (wordBytes 1)
  else if info.query = infoReadMmrReg then
    if info.arg = gbAddrConfigReg then
      if gbAddrConfig = 0 then (.accessRefused, s.say .noGbAddrConfig)
      else copyOut (s.say (.gbAddrConfig gbAddrConfig)) info (wordBytes gbAddrConfig)
    else (.err .ENOSYS, s.say (.registerRefused info.arg))
  else if info.query = infoDevInfo then
    copyOut (s.say (.groupsAssumed deviceInfo.2)) info (layout.device deviceInfo.1)
  else if info.query = infoMemory then
    let r := memoryInfo w directMemorySize
    let s := s.say (memoryLine directMemorySize)
    if r.1 ≠ .ok then (.of r.1, s) else copyOut s info (layout.memory r.2)
  else if info.query = infoFwVersion then
    copyOut (s.say (.firmware info.arg)) info (List.replicate layout.firmwareSize 0)
  else if info.query = infoHwIpInfo then
    if info.arg ≠ hwIpGfx then (.err .ENOSYS, s.say (.noHwIp info.arg))
    else copyOut s info (layout.hwIp ⟨10, 1, 1⟩)
  else if info.query = infoHwIpCount then
    if info.arg ≠ hwIpGfx then (.err .ENOSYS, s.say (.noHwIpCount info.arg))
    else copyOut s info (wordBytes 1)
  else (.err .ENOSYS, s.say (.notImplemented info.query))

/-- `oops_winsys_info` -/
def oopsWinsysInfo (s : InfoState) (info : InfoRequest) : InfoRet × InfoState :=
  let r := infoQuery layout w directMemorySize (traceQuery s info.query) info
  if r.1 ≠ .ok then (r.1, r.2.say (.answered info.query r.1)) else r

end Query

/-- A query, with the state of the winsys it is asked in and the kernel's answer. -/
structure InfoCall where
  info : InfoRequest
  shim : Shim
  directMemorySize : Option UInt64

/-- Queries one after the other, and what they return. -/
def InfoState.run (layout : Layout) (s : InfoState) : List InfoCall → List InfoRet × InfoState
  | [] => ([], s)
  | c :: calls =>
    let r := oopsWinsysInfo layout c.shim c.directMemorySize s c.info
    let rest := InfoState.run layout r.2 calls
    (r.1 :: rest.1, rest.2)

/-! ## The table -/

/-- The answer to a query, or why there is none. -/
def InfoCall.reply (layout : Layout) (c : InfoCall) : Except InfoRet (List UInt8) :=
  if c.info.query = infoAccelWorking then .ok (wordBytes 1)
  else if c.info.query = infoReadMmrReg then
    if c.info.arg = gbAddrConfigReg then .ok (wordBytes gbAddrConfig) else .error (.err .ENOSYS)
  else if c.info.query = infoDevInfo then .ok (layout.device deviceInfo.1)
  else if c.info.query = infoMemory then
    let r := memoryInfo c.shim c.directMemorySize
    if r.1 = .ok then .ok (layout.memory r.2) else .error (.of r.1)
  else if c.info.query = infoFwVersion then .ok (List.replicate layout.firmwareSize 0)
  else if c.info.query = infoHwIpInfo then
    if c.info.arg = hwIpGfx then .ok (layout.hwIp ⟨10, 1, 1⟩) else .error (.err .ENOSYS)
  else if c.info.query = infoHwIpCount then
    if c.info.arg = hwIpGfx then .ok (wordBytes 1) else .error (.err .ENOSYS)
  else .error (.err .ENOSYS)

/-- What a query returns: 0, if there is an answer and room for some of it. -/
def InfoCall.ret (layout : Layout) (c : InfoCall) : InfoRet :=
  match c.reply layout with
  | .error r => r
  | .ok _ => if c.info.returnPointer = 0 ∨ c.info.returnSize = 0 then .err .EINVAL else .ok

/-- What a query writes: as much of the answer as there is room for. -/
def InfoCall.written (layout : Layout) (c : InfoCall) : List UInt8 :=
  match c.reply layout with
  | .error _ => []
  | .ok bytes => if c.info.returnPointer = 0 then [] else bytes.take c.info.returnSize.toNat

/-- A line that names a failure. -/
def InfoLine.failure : InfoLine → Option (UInt32 × InfoRet)
  | .answered query r => some (query, r)
  | _ => none

/-- How often the log names a query that was asked: once below 64, and otherwise each time. -/
def timesNamed (calls : List InfoCall) (q : UInt32) : Nat :=
  if q < 64 then (if ∃ c ∈ calls, c.info.query = q then 1 else 0)
  else (calls.filter (·.info.query = q)).length

/-- What any queries come to, from client memory `before` on and nothing asked before. -/
structure InfoAnswers (layout : Layout) (before : Nat → UInt8) (calls : List InfoCall)
    (r : List InfoRet × InfoState) : Prop where
  /-- What is returned is the table's. -/
  rets : r.1 = calls.map (InfoCall.ret layout)
  /-- What is written is the table's, each answer where it was asked for. -/
  mem : r.2.mem = calls.foldl
    (fun mem c => memcpy mem c.info.returnPointer.toNat (c.written layout)) before
  /-- Outside the rooms nothing is written. -/
  room : ∀ x, (∀ c ∈ calls, ¬ (c.info.returnPointer.toNat ≤ x ∧
    x < c.info.returnPointer.toNat + c.info.returnSize.toNat)) → r.2.mem x = before x
  asked : ∀ q, (r.2.log.filter (· = .asked q)).length = timesNamed calls q
  /-- Each failure is named, in order. -/
  failures : r.2.log.filterMap InfoLine.failure =
    (calls.filter (·.ret layout ≠ .ok)).map fun c => (c.info.query, c.ret layout)

/-! ## One query -/

section Proofs

variable {layout : Layout} {c : InfoCall} {s s' : InfoState} {r : InfoRet × InfoState}
  {mem before : Nat → UInt8} {past calls : List InfoCall} {a x : Nat} {bs : List UInt8}

theorem memcpy_nil : memcpy mem a [] = mem := by
  funext x
  unfold memcpy
  split <;> rfl

theorem memcpy_outside (h : ¬ (a ≤ x ∧ x < a + bs.length)) : memcpy mem a bs x = mem x := by
  unfold memcpy
  split
  · next hle =>
    rw [List.getD_eq_getElem?_getD, List.getElem?_eq_none (by omega)]
    rfl
  · rfl

/-- A line that names neither a query asked nor a failure. -/
def InfoLine.Aside (line : InfoLine) : Prop := line.failure = none ∧ ∀ q, line ≠ .asked q

/-- What is done to a query once it is named. -/
structure InfoEffect (layout : Layout) (c : InfoCall) (s : InfoState)
    (r : InfoRet × InfoState) : Prop where
  ret : r.1 = c.ret layout
  mem : r.2.mem = memcpy s.mem c.info.returnPointer.toNat (c.written layout)
  seen : r.2.seen = s.seen
  log : ∃ lines : List InfoLine, (∀ line ∈ lines, line.Aside) ∧ r.2.log = s.log ++ lines

theorem InfoEffect.say {line : InfoLine} (h : InfoEffect layout c (s.say line) r)
    (hline : line.Aside) : InfoEffect layout c s r where
  ret := h.ret
  mem := h.mem
  seen := h.seen
  log := by
    obtain ⟨lines, haside, hlog⟩ := h.log
    refine ⟨line :: lines, List.forall_mem_cons.mpr ⟨hline, haside⟩, ?_⟩
    rw [hlog]
    exact List.append_assoc ..

/-- A query that there is no answer to. -/
theorem InfoEffect.refused {e : InfoRet} {line : InfoLine} (h : c.reply layout = .error e)
    (hline : line.Aside) : InfoEffect layout c s (e, s.say line) where
  ret := by
    unfold InfoCall.ret
    rw [h]
  mem := by
    unfold InfoCall.written
    rw [h]
    exact memcpy_nil.symm
  seen := rfl
  log := ⟨[line], List.forall_mem_singleton.mpr hline, rfl⟩

/-- A query that there is an answer to. -/
theorem InfoEffect.answered {bytes : List UInt8} (h : c.reply layout = .ok bytes)
    (hne : bytes ≠ []) : InfoEffect layout c s (copyOut s c.info bytes) := by
  have hlen := List.length_pos_of_ne_nil hne
  have hzero : c.info.returnSize = 0 ↔ c.info.returnSize.toNat = 0 := UInt32.toNat_inj.symm
  have htake : bytes.take (if bytes.length < c.info.returnSize.toNat then bytes.length
      else c.info.returnSize.toNat) = bytes.take c.info.returnSize.toNat := by
    split
    · next hlt => rw [List.take_length, List.take_of_length_le hlt.le]
    · rfl
  have hn : (if bytes.length < c.info.returnSize.toNat then bytes.length
      else c.info.returnSize.toNat) = 0 ↔ c.info.returnSize = 0 := by
    rw [hzero]
    split <;> omega
  have hret : c.ret layout =
      if c.info.returnPointer = 0 ∨ c.info.returnSize = 0 then .err .EINVAL else .ok := by
    unfold InfoCall.ret
    rw [h]
  have hwritten : c.written layout =
      if c.info.returnPointer = 0 then [] else bytes.take c.info.returnSize.toNat := by
    unfold InfoCall.written
    rw [h]
  unfold copyOut
  simp only [hn, htake]
  split
  · next hnone =>
    rw [if_pos hnone] at hret
    have haside : (InfoLine.noReply c.info.query (c.info.returnPointer ≠ 0) bytes.length
        c.info.returnSize).Aside := ⟨rfl, nofun⟩
    refine ⟨hret.symm, ?_, rfl, [_], List.forall_mem_singleton.mpr haside, rfl⟩
    have hnil : c.written layout = [] := by
      rw [hwritten]
      split
      · rfl
      · next hp =>
        rw [hzero.mp (hnone.resolve_left hp)]
        rfl
    rw [hnil, memcpy_nil]
    rfl
  · next hsome =>
    rw [if_neg hsome] at hret
    rw [if_neg fun hp => hsome (.inl hp)] at hwritten
    exact ⟨hret.symm, by rw [hwritten], rfl, [], List.forall_mem_nil _,
      (List.append_nil _).symm⟩

theorem infoQuery_effect (layout : Layout) (c : InfoCall) (s : InfoState) :
    InfoEffect layout c s (infoQuery layout c.shim c.directMemorySize s c.info) := by
  have hreply : c.reply layout = InfoCall.reply layout c := rfl
  unfold infoQuery
  conv at hreply => rhs; unfold InfoCall.reply
  by_cases haccel : c.info.query = infoAccelWorking
  · rw [if_pos haccel] at hreply ⊢
    exact .answered hreply (List.cons_ne_nil _ _)
  rw [if_neg haccel] at hreply ⊢
  by_cases hreg : c.info.query = infoReadMmrReg
  · rw [if_pos hreg] at hreply ⊢
    by_cases hgb : c.info.arg = gbAddrConfigReg
    · rw [if_pos hgb] at hreply ⊢
      rw [if_neg (show gbAddrConfig ≠ 0 by decide)]
      exact (InfoEffect.answered hreply (List.cons_ne_nil _ _)).say ⟨rfl, nofun⟩
    · rw [if_neg hgb] at hreply ⊢
      exact .refused hreply ⟨rfl, nofun⟩
  rw [if_neg hreg] at hreply ⊢
  by_cases hdev : c.info.query = infoDevInfo
  · rw [if_pos hdev] at hreply ⊢
    exact (InfoEffect.answered hreply (layout.device_ne _)).say ⟨rfl, nofun⟩
  rw [if_neg hdev] at hreply ⊢
  by_cases hmem : c.info.query = infoMemory
  · rw [if_pos hmem] at hreply ⊢
    have hline : (memoryLine c.directMemorySize).Aside := by
      unfold memoryLine
      split
      · exact ⟨rfl, nofun⟩
      · split
        · exact ⟨rfl, nofun⟩
        · exact ⟨rfl, nofun⟩
    dsimp only at hreply ⊢
    by_cases hok : (memoryInfo c.shim c.directMemorySize).1 = .ok
    · rw [if_pos hok] at hreply
      rw [if_neg (not_not_intro hok)]
      exact (InfoEffect.answered hreply (layout.memory_ne _)).say hline
    · rw [if_neg hok] at hreply
      rw [if_pos hok]
      exact .refused hreply hline
  rw [if_neg hmem] at hreply ⊢
  by_cases hfw : c.info.query = infoFwVersion
  · rw [if_pos hfw] at hreply ⊢
    have hne : List.replicate layout.firmwareSize (0 : UInt8) ≠ [] := by
      rw [Ne, List.replicate_eq_nil_iff]
      exact layout.firmware_pos.ne'
    exact (InfoEffect.answered hreply hne).say ⟨rfl, nofun⟩
  rw [if_neg hfw] at hreply ⊢
  by_cases hip : c.info.query = infoHwIpInfo
  · rw [if_pos hip] at hreply ⊢
    by_cases hgfx : c.info.arg = hwIpGfx
    · rw [if_pos hgfx] at hreply
      rw [if_neg (not_not_intro hgfx)]
      exact .answered hreply (layout.hwIp_ne _)
    · rw [if_neg hgfx] at hreply
      rw [if_pos hgfx]
      exact .refused hreply ⟨rfl, nofun⟩
  rw [if_neg hip] at hreply ⊢
  by_cases hcount : c.info.query = infoHwIpCount
  · rw [if_pos hcount] at hreply ⊢
    by_cases hgfx : c.info.arg = hwIpGfx
    · rw [if_pos hgfx] at hreply
      rw [if_neg (not_not_intro hgfx)]
      exact .answered hreply (List.cons_ne_nil _ _)
    · rw [if_neg hgfx] at hreply
      rw [if_pos hgfx]
      exact .refused hreply ⟨rfl, nofun⟩
  rw [if_neg hcount] at hreply ⊢
  exact .refused hreply ⟨rfl, nofun⟩

/-! ## What is named -/

/-- The bits of `seen` are the queries below 64 that were asked. -/
def SeenAsked (seen : UInt64) (past : List InfoCall) : Prop :=
  ∀ q : UInt32, q < 64 → (HasBit seen q.toNat ↔ ∃ c ∈ past, c.info.query = q)

theorem timesNamed_other {q : UInt32} (hq : c.info.query ≠ q) :
    timesNamed (past ++ [c]) q = timesNamed past q := by
  have hex : (∃ c' ∈ past ++ [c], c'.info.query = q) ↔ ∃ c' ∈ past, c'.info.query = q := by
    constructor
    · rintro ⟨c', hc', h⟩
      rcases List.mem_append.mp hc' with hc' | hc'
      · exact ⟨c', hc', h⟩
      · rw [List.mem_singleton.mp hc'] at h
        exact absurd h hq
    · rintro ⟨c', hc', h⟩
      exact ⟨c', List.mem_append_left _ hc', h⟩
  unfold timesNamed
  rw [List.filter_append, List.filter_singleton, decide_eq_false hq]
  simp only [hex, cond_false, List.append_nil]

theorem timesNamed_small (hq : c.info.query < 64) :
    timesNamed (past ++ [c]) c.info.query = 1 := by
  unfold timesNamed
  rw [if_pos hq, if_pos ⟨c, List.mem_append_right _ (List.mem_singleton_self c), rfl⟩]

theorem timesNamed_large (hq : ¬ c.info.query < 64) :
    timesNamed (past ++ [c]) c.info.query = timesNamed past c.info.query + 1 := by
  unfold timesNamed
  rw [if_neg hq, if_neg hq, List.filter_append, List.filter_singleton, decide_eq_true rfl,
    List.length_append]
  rfl

/-- A query is named if it is large or was not asked before. -/
theorem traceQuery_spec (hseen : SeenAsked s.seen past) (c : InfoCall) :
    let t := traceQuery s c.info.query
    t.mem = s.mem ∧ SeenAsked t.seen (past ++ [c]) ∧
      ∃ named : List InfoLine, t.log = s.log ++ named ∧ (∀ line ∈ named, line.failure = none) ∧
        ∀ q, timesNamed (past ++ [c]) q =
          timesNamed past q + (named.filter (· = .asked q)).length := by
  have hone : ∀ q, c.info.query ≠ q →
      ([InfoLine.asked c.info.query].filter (· = .asked q)).length = 0 := by
    intro q hq
    rw [List.filter_singleton, decide_eq_false fun h => hq (InfoLine.asked.inj h)]
    rfl
  have hself : ([InfoLine.asked c.info.query].filter (· = .asked c.info.query)).length = 1 := by
    rw [List.filter_singleton, decide_eq_true rfl]
    rfl
  have hmem : ∀ q, (∃ c' ∈ past ++ [c], c'.info.query = q) ↔
      (∃ c' ∈ past, c'.info.query = q) ∨ c.info.query = q := by
    intro q
    constructor
    · rintro ⟨c', hc', h⟩
      rcases List.mem_append.mp hc' with hc' | hc'
      · exact .inl ⟨c', hc', h⟩
      · rw [List.mem_singleton.mp hc'] at h
        exact .inr h
    · rintro (⟨c', hc', h⟩ | h)
      · exact ⟨c', List.mem_append_left _ hc', h⟩
      · exact ⟨c, List.mem_append_right _ (List.mem_singleton_self c), h⟩
  have hlt64 : c.info.query < 64 → c.info.query.toUInt64 < 64 := by
    intro h
    rw [UInt64.lt_iff_toNat_lt, UInt32.toNat_toUInt64]
    exact UInt32.lt_iff_toNat_lt.mp h
  unfold traceQuery
  by_cases hsmall : c.info.query < 64
  · rw [if_pos hsmall]
    have hbit := and_bit_ne_zero_iff (w := s.seen) (hlt64 hsmall)
    rw [UInt32.toNat_toUInt64, hseen _ hsmall] at hbit
    dsimp only
    by_cases hold : s.seen &&& 1 <<< c.info.query.toUInt64 ≠ 0
    · rw [if_pos hold]
      obtain ⟨c', hc', hq'⟩ := hbit.mp hold
      refine ⟨rfl, fun q hq => ?_, [], (List.append_nil _).symm, List.forall_mem_nil _,
        fun q => ?_⟩
      · rw [hmem, hseen q hq]
        constructor
        · exact .inl
        · rintro (h | rfl)
          · exact h
          · exact ⟨c', hc', hq'⟩
      · by_cases hq : c.info.query = q
        · subst hq
          rw [timesNamed_small hsmall]
          unfold timesNamed
          rw [if_pos hsmall, if_pos ⟨c', hc', hq'⟩]
          rfl
        · rw [timesNamed_other hq]
          rfl
    · rw [if_neg hold]
      refine ⟨rfl, fun q hq => ?_, [_], rfl, List.forall_mem_singleton.mpr rfl, fun q => ?_⟩
      · rw [hmem, ← hseen q hq]
        show HasBit (s.seen ||| 1 <<< c.info.query.toUInt64) _ ↔ _
        rw [hasBit_or_bit (hlt64 hsmall), UInt32.toNat_toUInt64, UInt32.toNat_inj]
      · by_cases hq : c.info.query = q
        · subst hq
          rw [timesNamed_small hsmall, hself]
          unfold timesNamed
          rw [if_pos hsmall, if_neg fun h => hold (hbit.mpr h)]
        · rw [timesNamed_other hq, hone q hq]
          rfl
  · rw [if_neg hsmall]
    refine ⟨rfl, fun q hq => ?_, [_], rfl, List.forall_mem_singleton.mpr rfl, fun q => ?_⟩
    · rw [hmem]
      have hne : c.info.query ≠ q := fun h => hsmall (h ▸ hq)
      exact (hseen q hq).trans ⟨.inl, fun h => h.resolve_right hne⟩
    · by_cases hq : c.info.query = q
      · subst hq
        rw [timesNamed_large hsmall, hself]
      · rw [timesNamed_other hq, hone q hq]
        rfl

/-! ## Any queries -/

/-- What holds after the queries `past`. -/
structure InfoInv (layout : Layout) (before : Nat → UInt8) (past : List InfoCall)
    (s : InfoState) : Prop where
  mem : s.mem = past.foldl
    (fun mem c => memcpy mem c.info.returnPointer.toNat (c.written layout)) before
  seen : SeenAsked s.seen past
  asked : ∀ q, (s.log.filter (· = .asked q)).length = timesNamed past q
  failures : s.log.filterMap InfoLine.failure =
    (past.filter (·.ret layout ≠ .ok)).map fun c => (c.info.query, c.ret layout)

theorem InfoInv.init : InfoInv layout before [] ⟨before, 0, []⟩ where
  mem := rfl
  seen q _ := ⟨fun h => absurd h not_hasBit_zero, fun ⟨_, h, _⟩ => absurd h List.not_mem_nil⟩
  asked q := by
    unfold timesNamed
    split
    · rw [if_neg fun ⟨_, h, _⟩ => List.not_mem_nil h]
      rfl
    · rfl
  failures := rfl

/-- The lines that are aside count for nothing. -/
theorem aside_lines {lines : List InfoLine} (h : ∀ line ∈ lines, line.Aside) (q : UInt32) :
    lines.filter (· = .asked q) = [] ∧ lines.filterMap InfoLine.failure = [] := by
  refine ⟨List.filter_eq_nil_iff.mpr fun line hline => ?_,
    List.filterMap_eq_nil_iff.mpr fun line hline => (h line hline).1⟩
  rw [decide_eq_false ((h line hline).2 q)]
  exact Bool.false_ne_true

theorem oopsWinsysInfo_ret (layout : Layout) (s : InfoState) (c : InfoCall) :
    (oopsWinsysInfo layout c.shim c.directMemorySize s c.info).1 = c.ret layout := by
  have heff := infoQuery_effect layout c (traceQuery s c.info.query)
  unfold oopsWinsysInfo
  rw [← heff.ret]
  dsimp only
  split
  · rfl
  · rfl

theorem InfoInv.query (h : InfoInv layout before past s) (c : InfoCall) :
    InfoInv layout before (past ++ [c])
      (oopsWinsysInfo layout c.shim c.directMemorySize s c.info).2 := by
  obtain ⟨hmem, hseen, named, hnamed, hquiet, htimes⟩ := traceQuery_spec h.seen c
  have heff := infoQuery_effect layout c (traceQuery s c.info.query)
  obtain ⟨lines, haside, hlog⟩ := heff.log
  have hfoldl : (infoQuery layout c.shim c.directMemorySize (traceQuery s c.info.query)
      c.info).2.mem = (past ++ [c]).foldl
        (fun mem c => memcpy mem c.info.returnPointer.toNat (c.written layout)) before := by
    rw [heff.mem, hmem, h.mem, List.foldl_append]
    rfl
  have hnofail : named.filterMap InfoLine.failure = [] := List.filterMap_eq_nil_iff.mpr hquiet
  have hasked : ∀ q, ((s.log ++ named ++ lines).filter (· = .asked q)).length =
      timesNamed (past ++ [c]) q := by
    intro q
    rw [List.filter_append, (aside_lines haside q).1, List.append_nil, List.filter_append,
      List.length_append, h.asked q, htimes q]
  have hfailed : (s.log ++ named ++ lines).filterMap InfoLine.failure =
      (past.filter (·.ret layout ≠ .ok)).map fun c => (c.info.query, c.ret layout) := by
    rw [List.filterMap_append, (aside_lines haside 0).2, List.append_nil, List.filterMap_append,
      hnofail, List.append_nil, h.failures]
  rw [hnamed] at hlog
  unfold oopsWinsysInfo
  dsimp only
  by_cases hok : c.ret layout = .ok
  · rw [if_neg (not_not_intro (heff.ret.trans hok))]
    refine ⟨hfoldl, heff.seen ▸ hseen, fun q => ?_, ?_⟩
    · rw [hlog, hasked q]
    · rw [hlog, hfailed, List.filter_append, List.filter_singleton,
        decide_eq_false (not_not_intro hok)]
      rw [cond_false, List.append_nil]
  · rw [if_pos (fun hret => hok (heff.ret.symm.trans hret))]
    refine ⟨hfoldl, heff.seen ▸ hseen, fun q => ?_, ?_⟩
    · show ((_ ++ [InfoLine.answered _ _]).filter _).length = _
      rw [hlog, List.filter_append, List.length_append, hasked q, List.filter_singleton,
        decide_eq_false nofun]
      rfl
    · show (_ ++ [InfoLine.answered _ _]).filterMap _ = _
      rw [hlog, List.filterMap_append, hfailed, List.filter_append, List.filter_singleton,
        decide_eq_true hok, heff.ret]
      rw [cond_true, List.map_append]
      rfl

theorem run_rets (calls : List InfoCall) (s : InfoState) :
    (s.run layout calls).1 = calls.map (InfoCall.ret layout) := by
  induction calls generalizing s with
  | nil => rfl
  | cons c calls ih => exact List.cons_eq_cons.mpr ⟨oopsWinsysInfo_ret layout s c, ih _⟩

theorem InfoInv.run (h : InfoInv layout before past s) (calls : List InfoCall) :
    InfoInv layout before (past ++ calls) (s.run layout calls).2 := by
  induction calls generalizing past s with
  | nil =>
    rw [List.append_nil]
    exact h
  | cons c calls ih =>
    rw [← List.singleton_append, ← List.append_assoc]
    exact ih (h.query c)

/-- An answer stays within its room. -/
theorem written_length (layout : Layout) (c : InfoCall) :
    (c.written layout).length ≤ c.info.returnSize.toNat := by
  unfold InfoCall.written
  split
  · exact Nat.zero_le _
  · split
    · exact Nat.zero_le _
    · exact List.length_take_le _ _

theorem foldl_outside (calls : List InfoCall) (before : Nat → UInt8)
    (h : ∀ c ∈ calls, ¬ (c.info.returnPointer.toNat ≤ x ∧
      x < c.info.returnPointer.toNat + c.info.returnSize.toNat)) :
    calls.foldl (fun mem c => memcpy mem c.info.returnPointer.toNat (c.written layout)) before x =
      before x := by
  induction calls generalizing before with
  | nil => rfl
  | cons c calls ih =>
    rw [List.forall_mem_cons] at h
    have hlen := written_length layout c
    rw [List.foldl_cons, ih _ h.2]
    exact memcpy_outside fun hin => h.1 ⟨hin.1, by omega⟩

/-- **What the device says of itself**, over any queries. -/
theorem info_answers (layout : Layout) (before : Nat → UInt8) (calls : List InfoCall) :
    InfoAnswers layout before calls ((InfoState.mk before 0 []).run layout calls) := by
  have h : InfoInv layout before ([] ++ calls) _ := InfoInv.init.run calls
  rw [List.nil_append] at h
  exact
    { rets := run_rets calls _
      mem := h.mem
      room := fun x hx => by
        rw [h.mem]
        exact foldl_outside calls before hx
      asked := h.asked
      failures := h.failures }

end Proofs

/-! ## The structures of amdgpu_drm.h -/

/-- The words of a 64-bit member. -/
def halves (w : UInt64) : List UInt32 := [w.toUInt32, (w >>> 32).toUInt32]

/-- `struct drm_amdgpu_info_device`; what `DeviceInfo` leaves out is zero. -/
def DeviceInfo.words (d : DeviceInfo) : List UInt32 :=
  [0, 0, d.externalRev, 0, d.family, d.numShaderEngines, d.numShaderArraysPerEngine,
    d.gpuCounterFreq, 0, 0, 0, 0, d.cuActiveNumber, d.cuAoMask] ++
  ((List.range 4).flatMap fun se => (List.range 4).map (d.cuBitmap se)) ++
  [d.enabledRbPipesMask, d.numRbPipes, d.numHwGfxContexts, 0] ++
  halves d.idsFlags ++ halves d.virtualAddressOffset ++ halves d.virtualAddressMax ++
  [d.virtualAddressAlignment, d.pteFragmentSize, d.gartPageSize, 0, d.vramType,
    d.vramBitWidth] ++
  List.replicate 38 0 ++ halves d.highVaOffset ++ halves d.highVaMax ++ List.replicate 22 0

/-- `struct drm_amdgpu_heap_info` -/
def HeapInfo.words (h : HeapInfo) : List UInt32 :=
  halves h.totalHeapSize ++ halves h.usableHeapSize ++ halves h.heapUsage ++
    halves h.maxAllocation

/-- The structures as a compiler lays them out, little-endian. -/
def amdgpuDrm : Layout where
  device d := d.words.flatMap wordBytes
  memory m := (m.vram.words ++ m.cpuAccessibleVram.words ++ m.gtt.words).flatMap wordBytes
  hwIp ip := [ip.hwIpVersionMajor, ip.hwIpVersionMinor, 0, 0, 0, 0, ip.availableRings,
    0].flatMap wordBytes
  firmwareSize := 8
  device_ne _ := List.cons_ne_nil _ _
  memory_ne _ := List.cons_ne_nil _ _
  hwIp_ne _ := List.cons_ne_nil _ _
  firmware_pos := by decide

example : (amdgpuDrm.device deviceInfo.1).length = 440 := by decide +kernel

/-- The graphics block asked about with room for two words, then another block, then the first
    again with nowhere to write to. -/
private def hwIpCalls : List InfoCall :=
  [⟨⟨0x1000, 8, infoHwIpInfo, hwIpGfx⟩, .init, none⟩, ⟨⟨0x2000, 32, infoHwIpInfo, 1⟩, .init, none⟩,
    ⟨⟨0, 32, infoHwIpInfo, hwIpGfx⟩, .init, none⟩]

theorem info_answers_short :
    let r := (InfoState.mk (fun _ => 0xff) 0 []).run amdgpuDrm hwIpCalls
    r.1 = [.ok, .err .ENOSYS, .err .EINVAL] ∧
      (List.range 10).map (fun k => r.2.mem (0x1000 + k)) =
        [10, 0, 0, 0, 1, 0, 0, 0, 0xff, 0xff] ∧
      (∀ k, r.2.mem (0x2020 + k) = 0xff) ∧
      (r.2.log.filter (· = .asked infoHwIpInfo)).length = 1 ∧
      r.2.log.filterMap InfoLine.failure =
        [(infoHwIpInfo, .err .ENOSYS), (infoHwIpInfo, .err .EINVAL)] := by
  intro r
  have h : InfoAnswers amdgpuDrm (fun _ => 0xff) hwIpCalls r := info_answers _ _ _
  refine ⟨h.rets.trans (by decide +kernel), ?_, fun k => h.room _ fun c hc => ?_,
    (h.asked _).trans (by decide +kernel), h.failures.trans (by decide +kernel)⟩
  · rw [h.mem]
    decide +kernel
  · have hends : ∀ c ∈ hwIpCalls,
        c.info.returnPointer.toNat + c.info.returnSize.toNat ≤ 0x2020 := by
      decide +kernel
    have hend := hends c hc
    omega

/-! ## The identity of the driver -/

/-- `struct drm_version` -/
structure Version where
  major : Int32
  minor : Int32
  patchlevel : Int32
  nameLen : UInt64
  name : UInt64
  dateLen : UInt64
  date : UInt64
  descLen : UInt64
  desc : UInt64
  deriving DecidableEq

def driverName : List UInt8 := "amdgpu".toUTF8.toList

def driverDate : List UInt8 := "20150101".toUTF8.toList

def driverDesc : List UInt8 := "oops-mesa winsys over the platform graphics driver".toUTF8.toList

/-- A string that goes to its buffer, if there is one and it is long enough. -/
def putString (mem : Nat → UInt8) (dst len : UInt64) (text : List UInt8) : Nat → UInt8 :=
  if dst ≠ 0 ∧ text.length ≤ len.toNat then memcpy mem dst.toNat text else mem

/-- `oops_winsys_version`, which returns 0. -/
def oopsWinsysVersion (mem : Nat → UInt8) (arg : Version) : Version × (Nat → UInt8) :=
  ({ arg with
      major := 3
      minor := 54
      patchlevel := 0
      nameLen := driverName.length.toUInt64
      dateLen := driverDate.length.toUInt64
      descLen := driverDesc.length.toUInt64 },
    putString (putString (putString mem arg.name arg.nameLen driverName) arg.date arg.dateLen
      driverDate) arg.desc arg.descLen driverDesc)

section Versions

variable {mem : Nat → UInt8} {dst len : UInt64} {text : List UInt8} {x : Nat}
  {first second : Version}

/-- Outside its buffer a string changes nothing. -/
theorem putString_outside (h : ¬ (dst.toNat ≤ x ∧ x < dst.toNat + len.toNat)) :
    putString mem dst len text x = mem x := by
  unfold putString
  split
  · next hfits => exact memcpy_outside fun hin => h ⟨hin.1, by omega⟩
  · rfl

theorem putString_get (hdst : dst ≠ 0) (hlen : text.length ≤ len.toNat) {k : Nat}
    (hk : k < text.length) : putString mem dst len text (dst.toNat + k) = text[k] := by
  unfold putString
  rw [if_pos ⟨hdst, hlen⟩]
  unfold memcpy
  rw [if_pos (Nat.le_add_right _ _), Nat.add_sub_cancel_left, List.getD_eq_getElem?_getD,
    List.getElem?_eq_getElem hk]
  rfl

/-- The buffers of a call: what is in one is in no other. -/
def Version.Apart (v : Version) : Prop :=
  (v.name.toNat + v.nameLen.toNat ≤ v.date.toNat ∨ v.date.toNat + v.dateLen.toNat ≤ v.name.toNat) ∧
  (v.name.toNat + v.nameLen.toNat ≤ v.desc.toNat ∨ v.desc.toNat + v.descLen.toNat ≤ v.name.toNat) ∧
  (v.date.toNat + v.dateLen.toNat ≤ v.desc.toNat ∨ v.desc.toNat + v.descLen.toNat ≤ v.date.toNat)

/-- **The driver's identity in two calls.** The lengths that a call without buffers tells are
    enough for a call with buffers, and neither writes elsewhere. -/
theorem version_in_two (hnull : first.name = 0 ∧ first.date = 0 ∧ first.desc = 0)
    (hname : second.name ≠ 0 ∧ (oopsWinsysVersion mem first).1.nameLen ≤ second.nameLen)
    (hdate : second.date ≠ 0 ∧ (oopsWinsysVersion mem first).1.dateLen ≤ second.dateLen)
    (hdesc : second.desc ≠ 0 ∧ (oopsWinsysVersion mem first).1.descLen ≤ second.descLen)
    (hapart : second.Apart) :
    (oopsWinsysVersion mem first).2 = mem ∧
      let after := (oopsWinsysVersion mem second).2
      (∀ k (hk : k < driverName.length), after (second.name.toNat + k) = driverName[k]) ∧
      (∀ k (hk : k < driverDate.length), after (second.date.toNat + k) = driverDate[k]) ∧
      (∀ k (hk : k < driverDesc.length), after (second.desc.toNat + k) = driverDesc[k]) ∧
      ∀ x, ¬ (second.name.toNat ≤ x ∧ x < second.name.toNat + second.nameLen.toNat) →
        ¬ (second.date.toNat ≤ x ∧ x < second.date.toNat + second.dateLen.toNat) →
        ¬ (second.desc.toNat ≤ x ∧ x < second.desc.toNat + second.descLen.toNat) →
        after x = mem x := by
  have told : ∀ {text : List UInt8} {len : UInt64}, text.length < 2 ^ 64 →
      text.length.toUInt64 ≤ len → text.length ≤ len.toNat := by
    intro text len hlt hle
    have h : text.length.toUInt64.toNat = text.length := Nat.mod_eq_of_lt hlt
    rw [← h]
    exact UInt64.le_iff_toNat_le.mp hle
  have hname' : driverName.length ≤ second.nameLen.toNat := told (by decide +kernel) hname.2
  have hdate' : driverDate.length ≤ second.dateLen.toNat := told (by decide +kernel) hdate.2
  have hdesc' : driverDesc.length ≤ second.descLen.toNat := told (by decide +kernel) hdesc.2
  obtain ⟨hnd, hns, hds⟩ := hapart
  refine ⟨?_, fun k hk => ?_, fun k hk => ?_, fun k hk => ?_, fun x h₁ h₂ h₃ => ?_⟩
  · unfold oopsWinsysVersion putString
    rw [hnull.1, hnull.2.1, hnull.2.2]
    rfl
  · exact (putString_outside (by omega)).trans
      ((putString_outside (by omega)).trans (putString_get hname.1 hname' hk))
  · exact (putString_outside (by omega)).trans (putString_get hdate.1 hdate' hk)
  · exact putString_get hdesc.1 hdesc' hk
  · exact (putString_outside h₃).trans ((putString_outside h₂).trans (putString_outside h₁))

end Versions

/-- The buffers that libdrm makes, each with a byte more than was told, which it sets to the NUL. -/
private def versionBuffers : Version := ⟨0, 0, 0, 7, 0x1000, 9, 0x2000, 51, 0x3000⟩

theorem version_in_two_libdrm :
    let after := (oopsWinsysVersion (fun _ => 0) versionBuffers).2
    (∀ k (hk : k < driverName.length), after (0x1000 + k) = driverName[k]) ∧ after 0x1007 = 0 := by
  have h := @version_in_two (fun _ => 0) ⟨0, 0, 0, 0, 0, 0, 0, 0, 0⟩ versionBuffers
    ⟨rfl, rfl, rfl⟩ ⟨by decide, by decide +kernel⟩ ⟨by decide, by decide +kernel⟩
    ⟨by decide, by decide +kernel⟩ ⟨.inl (by decide), .inl (by decide), .inl (by decide)⟩
  exact ⟨h.2.1, h.2.2.2.2 0x1007 (by decide) (by decide) (by decide)⟩

end OopsMesa.Winsys
