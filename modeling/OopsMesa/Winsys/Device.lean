/-
  The device descriptor.

  `oops_winsys_claim_fd` opens a file once and keeps the descriptor in `s_winsys_fd`, which holds
  a token, `OOPS_WINSYS_FD`, until then. stderr is taken where the file cannot be opened. Whether a
  descriptor is held is seen by comparing with the token, and the token is a number that `open`
  may return: then the descriptor is given out and counts as none, and a render node is refused,
  also by the call that has just opened the file. Every other descriptor is claimed once
  (`claimed_once_iff`).
-/
import OopsMesa.Lib.Reach

namespace OopsMesa.Winsys

open OopsMesa.Lib

/-! ## The code -/

/-- `OOPS_WINSYS_FD`, the token. -/
def winsysFd : Int32 := 0x57

/-- `STDERR_FILENO` -/
def stderrFileno : Int32 := 2

/-- `-ENODEV` and `-EBADF`, of the platform's errno.h. -/
def noDevice : Int32 := -19

def badDescriptor : Int32 := -9

/-- What the kernel answers to a claim: `open`, negative where it fails, and whether
    `fcntl(STDERR_FILENO, F_GETFD)` knows stderr. -/
structure Kernel where
  opened : Int32
  stderrOpen : Bool
  deriving DecidableEq

/-- A claim: what it returns, and what it does. -/
structure Claim where
  ret : Int32
  held : Int32
  /-- `open` was called. -/
  opens : Bool
  /-- A descriptor of the kernel's that was not held before. -/
  found : Option Int32
  deriving DecidableEq

/-- `oops_winsys_claim_fd`, with `held` in `s_winsys_fd`. -/
def oopsWinsysClaimFd (held : Int32) (k : Kernel) : Claim :=
  if held ≠ winsysFd then ⟨held, held, false, none⟩
  else if 0 ≤ k.opened then ⟨k.opened, k.opened, true, some k.opened⟩
  else if k.stderrOpen then ⟨stderrFileno, stderrFileno, true, some stderrFileno⟩
  else ⟨held, held, true, none⟩

/-- The calls. `bound` is whether the graphics driver is there, and `dup` and `errno` what
    `fcntl(held, F_DUPFD, 3)` gives. -/
inductive DeviceCall where
  | claimFd (k : Kernel)
  | open (bound : Bool) (k : Kernel)
  | openRenderNode (k : Kernel) (dup errno : Int32)
  deriving DecidableEq

/-- The claim that a call makes, if it makes one. -/
def DeviceCall.claim (held : Int32) : DeviceCall → Option Claim
  | .claimFd k => some (oopsWinsysClaimFd held k)
  | .open bound k => if bound then some (oopsWinsysClaimFd held k) else none
  | .openRenderNode k _ _ => some (oopsWinsysClaimFd held k)

/-- What a call returns: `oops_winsys_claim_fd`, `oops_winsys_open` and
    `oops_winsys_open_render_node`. -/
def DeviceCall.ret (held : Int32) : DeviceCall → Int32
  | .claimFd k => (oopsWinsysClaimFd held k).ret
  | .open bound k => if !bound then noDevice else (oopsWinsysClaimFd held k).ret
  | .openRenderNode k dup errno =>
    let claim := oopsWinsysClaimFd held k
    if claim.ret = winsysFd then noDevice else if dup < 0 then -errno else dup

/-- How the gate of `oops_winsys_ioctl` takes a descriptor. -/
inductive Gate where
  | device
  | duplicate
  | refused (ret : Int32)
  deriving DecidableEq

/-- The gate; `getfd` is whether `fcntl(fd, F_GETFD)` knows the descriptor. -/
def ioctlGate (held fd : Int32) (getfd : Bool) : Gate :=
  if fd ≠ held then (if !getfd then .refused badDescriptor else .duplicate) else .device

/-! ## The statement -/

/-- `s_winsys_fd`, and the descriptor that was found first. -/
structure Device where
  held : Int32
  found : Option Int32
  deriving DecidableEq

def Device.init : Device := ⟨winsysFd, none⟩

def Device.after (s : Device) (c : DeviceCall) : Device :=
  match c.claim s.held with
  | none => s
  | some claim => ⟨claim.held, s.found.or claim.found⟩

/-- Once a descriptor was found, a call that claims gets it and opens nothing. From the call that
    finds it on, the gate knows it, and `oops_winsys_open_render_node` answers `-ENODEV` only if
    its `fcntl` failed with that. -/
structure KeepsDescriptor (s : Device) (c : DeviceCall) : Prop where
  same : ∀ d, s.found = some d → ∀ claim, c.claim s.held = some claim →
    claim.ret = d ∧ claim.opens = false
  node : (s.after c).found ≠ none → ∀ k dup errno, c = .openRenderNode k dup errno →
    c.ret s.held = noDevice →
      (oopsWinsysClaimFd s.held k).ret ≠ winsysFd ∧ dup < 0 ∧ -errno = noDevice
  gate : ∀ d, (s.after c).found = some d → ∀ getfd, ioctlGate (s.after c).held d getfd = .device

/-- No claim is made once `open` has answered with the token's number, and the call that opens the
    file with that answer is not one for a render node. -/
structure SparesToken (s : Device) (c : DeviceCall) : Prop where
  claims : s.found = some winsysFd → c.claim s.held = none
  node : s.found = none → ∀ k dup errno, c = .openRenderNode k dup errno → k.opened ≠ winsysFd

/-- The device descriptor is claimed once. -/
def ClaimedOnce (calls : List DeviceCall) : Prop :=
  EachStep Device.after KeepsDescriptor .init calls

/-! ## One claim -/

section Claims

variable {s : Device} {c : DeviceCall} {claim : Claim} {held d : Int32} {k : Kernel}

theorem oopsWinsysClaimFd_held (h : held ≠ winsysFd) :
    oopsWinsysClaimFd held k = ⟨held, held, false, none⟩ := if_pos h

theorem oopsWinsysClaimFd_opens : (oopsWinsysClaimFd winsysFd k).opens = true := by
  unfold oopsWinsysClaimFd
  rw [if_neg fun h => h rfl]
  split
  · rfl
  · split <;> rfl

/-- A claim that finds a descriptor holds it; one that finds none changes nothing. -/
theorem oopsWinsysClaimFd_found (held : Int32) (k : Kernel) :
    (oopsWinsysClaimFd held k).held = (oopsWinsysClaimFd held k).found.getD held := by
  unfold oopsWinsysClaimFd
  split
  · rfl
  · split
    · rfl
    · split <;> rfl

theorem DeviceCall.claim_eq (h : c.claim held = some claim) :
    ∃ k, claim = oopsWinsysClaimFd held k := by
  cases c with
  | claimFd k => exact ⟨k, (Option.some.inj h).symm⟩
  | «open» bound k =>
    cases bound with
    | false => cases h
    | true => exact ⟨k, (Option.some.inj h).symm⟩
  | openRenderNode k dup errno => exact ⟨k, (Option.some.inj h).symm⟩

theorem ioctlGate_held (held : Int32) (getfd : Bool) : ioctlGate held held getfd = .device :=
  if_neg fun h => h rfl

/-! ## The calls -/

/-- What is held is what was found, and the token as long as nothing was. -/
def Device.Consistent (s : Device) : Prop := s.held = s.found.getD winsysFd

theorem Device.after_none (h : c.claim s.held = none) : s.after c = s := by
  unfold Device.after
  rw [h]

theorem Device.after_some (h : c.claim s.held = some claim) :
    s.after c = ⟨claim.held, s.found.or claim.found⟩ := by
  unfold Device.after
  rw [h]

/-- With a descriptor found that is not the token, every claim is answered from `held`. -/
theorem claim_of_found (h : s.Consistent) (hfound : s.found = some d)
    (hok : s.found = some winsysFd → c.claim s.held = none) (hclaim : c.claim s.held = some claim) :
    d ≠ winsysFd ∧ claim = ⟨d, d, false, none⟩ := by
  have hd : d ≠ winsysFd := by
    rintro rfl
    cases (hok hfound).symm.trans hclaim
  have hheld : s.held = d := by
    unfold Device.Consistent at h
    rw [h, hfound]
    rfl
  obtain ⟨k, rfl⟩ := DeviceCall.claim_eq hclaim
  rw [hheld]
  exact ⟨hd, oopsWinsysClaimFd_held hd⟩

theorem Device.Consistent.after (h : s.Consistent)
    (hok : s.found = some winsysFd → c.claim s.held = none) : (s.after c).Consistent := by
  cases hclaim : c.claim s.held with
  | none => rwa [Device.after_none hclaim]
  | some claim =>
    rw [Device.after_some hclaim]
    cases hfound : s.found with
    | none =>
      obtain ⟨k, rfl⟩ := DeviceCall.claim_eq hclaim
      have hheld : s.held = winsysFd := by
        unfold Consistent at h
        rw [h, hfound]
        rfl
      have hfinds := oopsWinsysClaimFd_found s.held k
      rw [hheld] at hfinds ⊢
      exact hfinds
    | some d =>
      obtain ⟨-, rfl⟩ := claim_of_found h hfound hok hclaim
      exact rfl

/-- With the token held, a claim returns the token only if it has found nothing, or if `open` has
    answered with the token's number. -/
theorem oopsWinsysClaimFd_token (h : (oopsWinsysClaimFd winsysFd k).ret = winsysFd) :
    (oopsWinsysClaimFd winsysFd k).found = none ∨ k.opened = winsysFd := by
  revert h
  unfold oopsWinsysClaimFd
  rw [if_neg fun hne => hne rfl]
  split
  · exact .inr
  · split
    · intro h
      exact absurd h (by decide)
    · exact fun _ => .inl rfl

/-- With `open` answering with the token's number, a claim returns the token and has found it. -/
theorem oopsWinsysClaimFd_opened (h : k.opened = winsysFd) :
    oopsWinsysClaimFd winsysFd k = ⟨winsysFd, winsysFd, true, some winsysFd⟩ := by
  unfold oopsWinsysClaimFd
  rw [if_neg fun hne => hne rfl, h, if_pos (by decide)]

theorem DeviceCall.ret_openRenderNode (held : Int32) (k : Kernel) (dup errno : Int32) :
    (DeviceCall.openRenderNode k dup errno).ret held =
      if (oopsWinsysClaimFd held k).ret = winsysFd then noDevice
      else if dup < 0 then -errno else dup := rfl

/-- A render node refused with `-ENODEV` although a descriptor was claimed: `fcntl` failed so. -/
theorem node_of_ne {dup errno : Int32}
    (hne : (oopsWinsysClaimFd held k).ret ≠ winsysFd)
    (hret : (DeviceCall.openRenderNode k dup errno).ret held = noDevice) :
    dup < 0 ∧ -errno = noDevice := by
  rw [DeviceCall.ret_openRenderNode, if_neg hne] at hret
  split at hret
  · exact ⟨‹_›, hret⟩
  · rename_i hdup
    subst hret
    exact absurd (by decide) hdup

/-- What is held is the token where nothing was found, or its own number. -/
theorem Device.Consistent.held_eq (h : s.Consistent)
    (hfound : s.found = none ∨ s.found = some winsysFd) : s.held = winsysFd := by
  unfold Consistent at h
  rcases hfound with hfound | hfound <;> rw [h, hfound] <;> rfl

theorem KeepsDescriptor.sparesToken (h : s.Consistent) (hkeeps : KeepsDescriptor s c) :
    SparesToken s c := by
  refine ⟨fun hfound => ?_, fun hfound k dup errno hc hopened => ?_⟩
  · have hheld := h.held_eq (.inr hfound)
    cases hclaim : c.claim s.held with
    | none => rfl
    | some claim =>
      have hopens := (hkeeps.same winsysFd hfound claim hclaim).2
      obtain ⟨k, rfl⟩ := DeviceCall.claim_eq hclaim
      rw [hheld, oopsWinsysClaimFd_opens] at hopens
      cases hopens
  · -- the claim of this very call gets the token's number
    subst hc
    have hheld := h.held_eq (.inl hfound)
    have hclaim := oopsWinsysClaimFd_opened hopened
    have hafter : (s.after (.openRenderNode k dup errno)).found ≠ none := by
      rw [Device.after_some rfl, hfound, hheld, hclaim]
      exact nofun
    have hret : (DeviceCall.openRenderNode k dup errno).ret s.held = noDevice := by
      rw [DeviceCall.ret_openRenderNode, hheld, hclaim]
      rfl
    apply (hkeeps.node hafter k dup errno rfl hret).1
    rw [hheld, hclaim]

theorem SparesToken.keepsDescriptor (h : s.Consistent) (hok : SparesToken s c) :
    KeepsDescriptor s c := by
  refine ⟨fun d hfound claim hclaim => ?_, fun hafter k dup errno hc hret => ?_,
    fun d hfound getfd => ?_⟩
  · obtain ⟨-, rfl⟩ := claim_of_found h hfound hok.claims hclaim
    exact ⟨rfl, rfl⟩
  · have hne : (oopsWinsysClaimFd s.held k).ret ≠ winsysFd := by
      intro htoken
      subst hc
      cases hfound : s.found with
      | some d =>
        obtain ⟨hne, hclaim⟩ := claim_of_found h hfound hok.claims rfl
        rw [hclaim] at htoken
        exact hne htoken
      | none =>
        rw [Device.after_some rfl, hfound] at hafter
        rw [h.held_eq (.inl hfound)] at htoken hafter
        exact (oopsWinsysClaimFd_token htoken).elim hafter (hok.node hfound k dup errno rfl)
    subst hc
    exact ⟨hne, node_of_ne hne hret⟩
  · have hafter := h.after hok.claims
    unfold Device.Consistent at hafter
    rw [hafter, hfound]
    exact ioctlGate_held d getfd

/-- A call keeps the descriptor exactly if it spares the token. -/
theorem keepsDescriptor_iff (h : s.Consistent) : KeepsDescriptor s c ↔ SparesToken s c :=
  ⟨fun hkeeps => hkeeps.sparesToken h, fun hok => hok.keepsDescriptor h⟩

end Claims

/-- The device descriptor is claimed once exactly if no claim is made after `open` has answered
    with the token's number, nor that answer given to a call for a render node. -/
theorem claimed_once_iff (calls : List DeviceCall) :
    ClaimedOnce calls ↔ EachStep Device.after SparesToken .init calls :=
  eachStep_congr (I := Device.Consistent) calls rfl (fun _ _ h _ => keepsDescriptor_iff h)
    fun _ _ h hok => h.after hok.claims

/-- A second claim after `open` has answered `0x57`: the file is opened again, and another
    descriptor returned. -/
theorem not_claimed_once :
    ¬ ClaimedOnce [.claimFd ⟨winsysFd, true⟩, .claimFd ⟨5, true⟩] := by
  intro h
  have hsame := h.2.1.same winsysFd rfl _ rfl
  exact absurd hsame (by decide)

-- the first call for a render node opens the file, with the token's number, and refuses
example : (DeviceCall.openRenderNode ⟨winsysFd, true⟩ 20 0).ret winsysFd = noDevice := by decide

end OopsMesa.Winsys
