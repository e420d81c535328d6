/-
# Runs of hooks and unhooks

Threads hook and unhook functions.  Between the parts of a hook anything can happen: another
thread can hook or unhook the same function.
-/
import LiuHookWorld.SwitchCalls

namespace ShadowHook

/-! ## The system -/

/-- A switch that a thread has created for a call. -/
structure Inserting (page : PageSize) where
  call : SwitchHook page
  hub_trampo : Option ℕ

/-- Where the function leads to when it is hooked. -/
def Inserting.dest {page : PageSize} (p : Inserting page) : ℕ :=
  p.hub_trampo.getD p.call.new_addr

/-- A switch that a thread has found, and is still to read `backup_len` from.  `inst` is what it
had when it was found; `live` says that it was not freed since. -/
structure Reading where
  target_addr : ℕ
  inst : Inst
  live : Bool

/-- The tree, and where each thread is in a hook. -/
structure SwitchSystem (page : PageSize) (τ : Type) where
  switches : Switches page
  inserting : τ → Option (Inserting page)
  reading : τ → Option Reading

/-- `freed` is what a switch that was freed has for `backup_len`. -/
inductive SwitchAct (page : PageSize) (τ : Type) where
  | find (thread : τ) (call : SwitchHook page) (answers : FindAnswers)
  | read (thread : τ) (freed : ℕ)
  | insert (thread : τ) (answers : InsertAnswers)
  | invisible (call : SwitchHook page) (answers : HookAnswers)
  | unhook (target_addr new_addr : ℕ) (answers : UnhookAnswers)
  | close (dlinfo : ExitInfo) (now : ℕ → ℤ)
  | store (a : ℕ) (bytes : List (BitVec 8))

/-- A switch with a hub is one of the shared mode. -/
def Switches.insert {page : PageSize} (s : Switches page) (p : Inserting page)
    (answers : InsertAnswers) : Option (Switches page × HookReturn) :=
  match p.hub_trampo with
  | none => s.insert_unique p.call answers
  | some hub_trampo => s.insert_shared p.call hub_trampo answers

/-- A switch that is no longer in the tree was freed. -/
def Reading.settle {page : PageSize} (s : Switches page) (p : Reading) : Reading :=
  { p with live := p.live && (s.find p.target_addr).isSome }

namespace SwitchSystem

variable {page : PageSize} {τ : Type} [DecidableEq τ]

/-- What the read of `backup_len` behind `pthread_rwlock_unlock` gives. -/
def backupLen (s : SwitchSystem page τ) (p : Reading) (freed : ℕ) : Option ℕ :=
  if p.live then (s.switches.hookedAt p.target_addr).map fun h => h.inst.backup_len
  else some freed

/-- The step, and what it shows if a call is done on the tree. -/
def act (mode : SwitchMode) (s : SwitchSystem page τ) :
    SwitchAct page τ → Option (SwitchSystem page τ × Option SwitchEvent)
  | .find thread call answers =>
      if (s.inserting thread).isSome || (s.reading thread).isSome then none
      else
        (s.switches.find_or_create mode call answers).map fun out =>
          match out.2 with
          | .done r =>
              ({ s with switches := out.1 }, some (.hook call.target_addr call.new_addr r))
          | .added r inst =>
              ({ s with
                switches := out.1
                reading := Function.update s.reading thread (some ⟨call.target_addr, inst, true⟩) },
                some (.hook call.target_addr call.new_addr r))
          | .create hub_trampo =>
              ({ s with
                switches := out.1
                inserting := Function.update s.inserting thread (some ⟨call, hub_trampo⟩) }, none)
  | .read thread _ =>
      (s.reading thread).map fun _ =>
        ({ s with reading := Function.update s.reading thread none }, none)
  | .insert thread answers =>
      (s.inserting thread).bind fun p =>
        (s.switches.insert p answers).map fun out =>
          ({ s with switches := out.1, inserting := Function.update s.inserting thread none },
            some (.hook p.call.target_addr p.call.new_addr out.2))
  | .invisible call answers =>
      -- in shared mode it is a hook like any other
      match mode with
      | .shared => none
      | .unique =>
          (s.switches.sh_switch_hook_unique_invisible call answers).map fun out =>
            ({ s with switches := out.1 }, none)
  | .unhook target_addr new_addr answers =>
      (s.switches.sh_switch_unhook mode target_addr new_addr answers).map fun out =>
        ({ s with
          switches := out.1
          reading := fun thread => (s.reading thread).map (Reading.settle out.1) },
          some (.unhook target_addr new_addr out.2))
  | .close dlinfo now =>
      let switches := s.switches.sh_switch_free_after_dlclose dlinfo now
      some ({ s with
        switches
        reading := fun thread => (s.reading thread).map (Reading.settle switches) },
        some (.close dlinfo))
  | .store a bytes =>
      (s.switches.insts.step (.store a bytes)).map fun insts =>
        ({ s with switches := { s.switches with insts } }, none)

/-- The state after a step. -/
def step (mode : SwitchMode) (s : SwitchSystem page τ) (a : SwitchAct page τ) :
    Option (SwitchSystem page τ) := (s.act mode a).map Prod.fst

/-- What a step shows: a hook or an unhook that returns, or a library that is closed. -/
def event (mode : SwitchMode) (s : SwitchSystem page τ) (a : SwitchAct page τ) :
    Option SwitchEvent := (s.act mode a).bind Prod.snd

/-- Nothing is hooked, and the safe addresses are those of the library itself. -/
def start (page : PageSize) (τ : Type) (safe_functions : List ℕ) (m : ByteMemory.Memory) :
    SwitchSystem page τ :=
  ⟨⟨[], .start page m, safe_functions.map fun target_addr => ⟨target_addr, 0⟩, []⟩,
    fun _ => none, fun _ => none⟩

/-! ## The set of pairs -/

variable {mode : SwitchMode} {s s' : SwitchSystem page τ}

/-- In unique mode no thread has a hub.  A switch that a thread has found stays as it was until it
is freed. -/
structure Formed (mode : SwitchMode) (s : SwitchSystem page τ) : Prop where
  switches : s.switches.Formed mode
  inserting : ∀ thread p, s.inserting thread = some p → (p.hub_trampo = none ↔ mode = .unique)
  reading : ∀ thread p, s.reading thread = some p → p.live →
    ∃ h, s.switches.hookedAt p.target_addr = some h ∧ h.inst = p.inst

omit [DecidableEq τ] in
theorem formed_start (safe_functions : List ℕ) (m : ByteMemory.Memory) :
    (start page τ safe_functions m).Formed mode :=
  ⟨fun _ _ h => (by cases h), fun _ _ h => (by cases h), fun _ _ h => (by cases h)⟩

/-- A switch is inserted, or there is one already. -/
theorem insert_cases {s s' : Switches page} (hs : s.Formed mode) {p : Inserting page}
    (hp : p.hub_trampo = none ↔ mode = .unique) {answers : InsertAnswers} {r : HookReturn}
    (hresult : s.insert p answers = some (s', r)) :
    (∃ self, s.find p.call.target_addr = some self ∧ s'.Formed mode ∧ Switches.Same s s' ∧
        s'.Returned p.call.target_addr r ∧
        RegistryStep mode s.Active (.hook p.call.target_addr p.call.new_addr r) s'.Active) ∨
      (s.find p.call.target_addr = none ∧
        Switches.Inserted mode s p.call p.dest answers (s', r)) := by
  obtain ⟨call, hub_trampo⟩ := p
  cases hub_trampo with
  | none =>
      obtain rfl := hp.mp rfl
      cases hfind : s.find call.target_addr with
      | none => exact .inr ⟨rfl, Switches.insert_unique_cases hfind hresult⟩
      | some self =>
          unfold Switches.insert Switches.insert_unique at hresult
          simp only [hfind] at hresult
          obtain ⟨rfl, rfl⟩ := Prod.mk.inj (Option.some.inj hresult)
          exact .inl ⟨self, rfl, hs, .refl s, nofun, Switches.dup_unique hs hfind rfl⟩
  | some hub_trampo =>
      obtain rfl : mode = .shared := by
        cases mode with
        | shared => rfl
        | unique => cases hp.mpr rfl
      cases hfind : s.find call.target_addr with
      | none => exact .inr ⟨rfl, Switches.insert_shared_cases hfind hresult⟩
      | some self =>
          unfold Switches.insert Switches.insert_shared at hresult
          simp only [hfind] at hresult
          obtain ⟨hub, hhub, hout⟩ := Option.map_eq_some_iff.mp hresult
          exact .inl ⟨self, rfl, Switches.add_proxy_spec hs hfind hhub hout⟩

/-- The second part of a hook, in the mode that the switch was created for. -/
theorem insert_spec {s s' : Switches page} (hs : s.Formed mode) {p : Inserting page}
    (hp : p.hub_trampo = none ↔ mode = .unique) {answers : InsertAnswers} {r : HookReturn}
    (hresult : s.insert p answers = some (s', r)) :
    s'.Formed mode ∧ s'.Returned p.call.target_addr r ∧
      RegistryStep mode s.Active (.hook p.call.target_addr p.call.new_addr r) s'.Active := by
  rcases insert_cases hs hp hresult with ⟨_, _, hs', _, hspec⟩ | ⟨hfind, hinserted⟩
  · exact ⟨hs', hspec⟩
  · exact hinserted.spec hs hfind

omit [DecidableEq τ] in
/-- The switches that threads have found are as they were, or freed. -/
theorem Formed.settled (hs : s.Formed mode) {switches : Switches page}
    (hleft : ∀ addr, (switches.find addr).isSome →
      switches.hookedAt addr = s.switches.hookedAt addr) (thread : τ) {p : Reading}
    (hp : (s.reading thread).map (Reading.settle switches) = some p) (hlive : p.live) :
    ∃ h, switches.hookedAt p.target_addr = some h ∧ h.inst = p.inst := by
  obtain ⟨q, hq, rfl⟩ := Option.map_eq_some_iff.mp hp
  obtain ⟨hqlive, hfind⟩ := Bool.and_eq_true_iff.mp hlive
  obtain ⟨h, hat, hinst⟩ := hs.reading thread q hq hqlive
  exact ⟨h, (hleft q.target_addr hfind).trans hat, hinst⟩

/-- What a hook stores is what the switch of the function has.  A hook that has found a switch has
returned where the original function is, and reads `backup_len` in a step of its own. -/
def Returns (s s' : SwitchSystem page τ) (event : Option SwitchEvent) : SwitchAct page τ → Prop
  | .find thread _ _ => ∀ target_addr new_addr r, event = some (.hook target_addr new_addr r) →
      r.errno = none → ∃ p, s'.reading thread = some p ∧ p.target_addr = target_addr ∧
        s'.switches.ProxyAdded target_addr r p.inst
  | .read thread freed => ∀ p, s.reading thread = some p →
      (s.backupLen p freed = some p.inst.backup_len ↔ p.live ∨ freed = p.inst.backup_len)
  | .insert _ _ => ∀ target_addr new_addr r, event = some (.hook target_addr new_addr r) →
      s'.switches.Returned target_addr r
  | _ => True

/-- The first part of a hook returns, or leaves a switch to read or to insert. -/
theorem Formed.find (hs : s.Formed mode) {thread : τ} {call : SwitchHook page}
    {answers : FindAnswers} {event : Option SwitchEvent}
    (hact : s.act mode (.find thread call answers) = some (s', event)) :
    s'.Formed mode ∧ s.Returns s' event (.find thread call answers) ∧
      Runs.Shown (RegistryStep mode) s.switches.Active s'.switches.Active event := by
  simp only [SwitchSystem.act] at hact
  split at hact
  · cases hact
  · obtain ⟨⟨switches, found⟩, hfound, hout⟩ := Option.map_eq_some_iff.mp hact
    obtain ⟨hs', hsame, hspec⟩ := Switches.find_or_create_spec hs.switches hfound
    have hreading : ∀ other p, s.reading other = some p → p.live →
        ∃ h, switches.hookedAt p.target_addr = some h ∧ h.inst = p.inst := by
      intro other p hp hlive
      rw [hsame.hookedAt]
      exact hs.reading other p hp hlive
    cases found with
    | done r =>
        obtain ⟨rfl, rfl⟩ := Prod.mk.inj hout
        refine ⟨⟨hs', hs.inserting, hreading⟩, ?_, hspec.2⟩
        rintro _ _ _ ⟨⟩ hnone
        exact absurd hnone hspec.1
    | added r inst =>
        obtain ⟨rfl, rfl⟩ := Prod.mk.inj hout
        refine ⟨⟨hs', hs.inserting, fun other p hp hlive => ?_⟩, ?_, hspec.2⟩
        · simp only [Function.update_apply] at hp
          split at hp
          · obtain rfl := Option.some.inj hp
            exact hspec.1.hookedAt
          · exact hreading other p hp hlive
        · rintro _ _ _ ⟨⟩ -
          exact ⟨_, Function.update_self .., rfl, hspec.1⟩
    | create hub_trampo =>
        obtain ⟨rfl, rfl⟩ := Prod.mk.inj hout
        refine ⟨⟨hs', fun other p hp => ?_, hreading⟩, nofun, hspec.1⟩
        simp only [Function.update_apply] at hp
        split at hp
        · obtain rfl := Option.some.inj hp
          exact hspec.2
        · exact hs.inserting other p hp

omit [DecidableEq τ] in
/-- The read is right unless the switch was freed. -/
theorem Formed.backupLen_iff (hs : s.Formed mode) {thread : τ} {p : Reading}
    (hp : s.reading thread = some p) (freed : ℕ) :
    s.backupLen p freed = some p.inst.backup_len ↔ p.live ∨ freed = p.inst.backup_len := by
  unfold backupLen
  cases hlive : p.live with
  | true =>
      obtain ⟨h, hat, hinst⟩ := hs.reading thread p hp hlive
      simp [hat, hinst]
  | false => simp

/-- The second part of a hook returns. -/
theorem Formed.insert (hs : s.Formed mode) {thread : τ} {answers : InsertAnswers}
    {event : Option SwitchEvent} (hact : s.act mode (.insert thread answers) = some (s', event)) :
    s'.Formed mode ∧ s.Returns s' event (.insert thread answers) ∧
      Runs.Shown (RegistryStep mode) s.switches.Active s'.switches.Active event := by
  obtain ⟨p, hp, hout⟩ := Option.bind_eq_some_iff.mp hact
  obtain ⟨⟨switches, r⟩, hinsert, hout⟩ := Option.map_eq_some_iff.mp hout
  obtain ⟨rfl, rfl⟩ := Prod.mk.inj hout
  have hhub := hs.inserting thread p hp
  obtain ⟨hs', hreturned, hspec⟩ := insert_spec hs.switches hhub hinsert
  refine ⟨⟨hs', fun other q hq => ?_, fun other q hq hlive => ?_⟩, ?_, hspec⟩
  · simp only [Function.update_apply] at hq
    split at hq
    · cases hq
    · exact hs.inserting other q hq
  · obtain ⟨h, hat, hinst⟩ := hs.reading other q hq hlive
    refine ⟨h, ?_, hinst⟩
    rcases insert_cases hs.switches hhub hinsert with ⟨_, _, _, hsame, _⟩ | ⟨hfind, hinserted⟩
    · exact (hsame.hookedAt _).trans hat
    · exact hinserted.hookedAt_kept hfind hat
  · rintro _ _ _ ⟨⟩
    exact hreturned

/-- Every step keeps the tree formed, and shows what it does to the pairs. -/
theorem Formed.act (hs : s.Formed mode) {a : SwitchAct page τ} {event : Option SwitchEvent}
    (hact : s.act mode a = some (s', event)) :
    s'.Formed mode ∧ s.Returns s' event a ∧
      Runs.Shown (RegistryStep mode) s.switches.Active s'.switches.Active event := by
  cases a with
  | find thread call answers => exact hs.find hact
  | read thread freed =>
      obtain ⟨p, hp, hout⟩ := Option.map_eq_some_iff.mp hact
      obtain ⟨rfl, rfl⟩ := Prod.mk.inj hout
      refine ⟨⟨hs.switches, hs.inserting, fun other q hq hlive => ?_⟩, fun q hq => ?_, rfl⟩
      · simp only [Function.update_apply] at hq
        split at hq
        · cases hq
        · exact hs.reading other q hq hlive
      · exact hs.backupLen_iff hq freed
  | insert thread answers => exact hs.insert hact
  | invisible call answers =>
      cases mode with
      | shared => cases hact
      | unique =>
          obtain ⟨⟨switches, r⟩, hhook, hout⟩ := Option.map_eq_some_iff.mp hact
          obtain ⟨rfl, rfl⟩ := Prod.mk.inj hout
          have htree := Switches.tree_of_invisible hhook
          exact ⟨⟨Switches.Formed.congr hs.switches htree, hs.inserting,
            fun other p hp hlive => Switches.hookedAt_congr htree _ ▸ hs.reading other p hp hlive⟩,
            trivial, Switches.active_congr htree⟩
  | unhook target_addr new_addr answers =>
      obtain ⟨⟨switches, errno⟩, hunhook, hout⟩ := Option.map_eq_some_iff.mp hact
      obtain ⟨rfl, rfl⟩ := Prod.mk.inj hout
      have hcases := Switches.unhook_cases hs.switches hunhook
      obtain ⟨hs', hspec⟩ := hcases.spec hs.switches
      exact ⟨⟨hs', hs.inserting, fun other p hp hlive =>
        hs.settled (fun addr => hcases.hookedAt_left) other hp hlive⟩, trivial, hspec⟩
  | close dlinfo now =>
      obtain ⟨rfl, rfl⟩ := Prod.mk.inj (Option.some.inj hact)
      obtain ⟨hs', hspec⟩ := Switches.free_after_dlclose_spec hs.switches dlinfo now
      exact ⟨⟨hs', hs.inserting, fun other p hp hlive =>
        hs.settled (fun addr => Switches.hookedAt_free_after_dlclose) other hp hlive⟩,
        trivial, hspec⟩
  | store a bytes =>
      obtain ⟨rfl, rfl⟩ := Prod.mk.inj (Option.some.inj hact)
      exact ⟨⟨hs.switches, hs.inserting, hs.reading⟩, trivial, rfl⟩

theorem exists_act {a : SwitchAct page τ} (hstep : s.step mode a = some s') :
    s.act mode a = some (s', s.event mode a) := by
  obtain ⟨⟨s'', event⟩, hact, rfl⟩ := Option.map_eq_some_iff.mp hstep
  rw [SwitchSystem.event, hact]
  rfl

/-- However the threads interleave, the calls that are done are, in this order, calls that are
each done at once on the set of pairs. -/
theorem switches_linearize (mode : SwitchMode) (safe_functions : List ℕ) (m : ByteMemory.Memory)
    (acts : List (SwitchAct page τ)) :
    Runs.Path (RegistryStep mode) ∅
      (Runs.trace (step mode) (event mode) (start page τ safe_functions m) acts)
      (Runs.run (step mode) (start page τ safe_functions m) acts).switches.Active := by
  have hstart : (start page τ safe_functions m).switches.Active = ∅ := by
    ext p
    exact ⟨fun ⟨_, hfind, _⟩ => (by cases hfind), False.elim⟩
  have hsim : ∀ (s : SwitchSystem page τ) a s' R, (s.Formed mode ∧ s.switches.Active = R) →
      s.step mode a = some s' → ∃ R', (s'.Formed mode ∧ s'.switches.Active = R') ∧
        Runs.Shown (RegistryStep mode) R R' (s.event mode a) := by
    rintro s a s' _ ⟨hs, rfl⟩ hstep
    obtain ⟨hs', -, hshown⟩ := hs.act (exists_act hstep)
    exact ⟨_, ⟨hs', rfl⟩, hshown⟩
  obtain ⟨R, ⟨-, rfl⟩, hpath⟩ := Runs.path_of_simulation hsim acts
    ⟨formed_start safe_functions m, hstart⟩
  exact hpath

/-- In every run, a hook that returns without an error has stored where the original function
goes on, as the switch of the function has it, and how much of it is overwritten; but where it has
found a switch, it reads the latter too late, and what it stores is right exactly if the switch was
not freed before, or has the number all the same. -/
theorem hooks_return (mode : SwitchMode) (safe_functions : List ℕ) (m : ByteMemory.Memory)
    (acts : List (SwitchAct page τ)) :
    Runs.Guarded (step mode)
      (fun s a => ∀ s', s.step mode a = some s' → s.Returns s' (s.event mode a) a)
      (start page τ safe_functions m)
      acts :=
  Runs.guarded_of_preserved (fun _ _ _ hs hstep => ⟨(Formed.act hs (exists_act hstep)).1,
      fun _ hstep' => (Formed.act hs (exists_act hstep')).2.1⟩) acts
    (formed_start safe_functions m)

end SwitchSystem

/-! ## The functions that are hooked -/

namespace Switches

variable {page : PageSize} {libs : List (ExitLibrary page.bytes)} {mode : SwitchMode}
  {s s' : Switches page} {target_addr new_addr : ℕ}

/-- What the safe address of a function has to be. -/
def origAt (s : Switches page) (target_addr : ℕ) : ℕ :=
  match s.hookedAt target_addr with
  | none => 0
  | some h => h.inst.enter_addr

/-- How a function is hooked, with or without a switch. -/
def overwritten (s : Switches page) (target_addr : ℕ) : Option HookedFunction :=
  (s.hookedAt target_addr).or (s.invisible.find? fun h => h.target_addr = target_addr)

/-- Where the code of a function begins, hooked or not. -/
def codeAt (s : Switches page) (target_addr : ℕ) : ℕ :=
  match s.overwritten target_addr with
  | none => target_addr
  | some h => h.inst.enter_addr

/-- The functions that are hooked have a switch, or are hooked without one; then the library does
not call them itself. -/
structure Inv (libs : List (ExitLibrary page.bytes)) (s : Switches page) : Prop where
  insts : s.insts.Inv libs
  hooked : ∀ h, h ∈ s.insts.hooked ↔ s.hookedAt h.target_addr = some h ∨ h ∈ s.invisible
  unseen : ∀ h ∈ s.invisible,
    s.find h.target_addr = none ∧ h.target_addr ∉ s.safe.map SafeAddr.target_addr
  targets : (s.safe.map SafeAddr.target_addr).Nodup
  safe : ∀ addr ∈ s.safe, addr.orig_addr = s.origAt addr.target_addr

/-- The functions that are hooked, as they are described for their own runs, are those that have
a switch and those that were hooked without one.  What the library calls itself is the original
code. -/
structure Sound (libs : List (ExitLibrary page.bytes)) (mode : SwitchMode) (s : Switches page) :
    Prop where
  insts : s.insts.Sound libs
  hooked : ∀ h, h ∈ s.insts.hooked ↔ s.hookedAt h.target_addr = some h ∨ h ∈ s.invisible
  formed : s.Formed mode
  safe : ∀ addr ∈ s.safe, addr.callee = s.codeAt addr.target_addr

theorem hookedAt_some {h : HookedFunction} (hat : s.hookedAt target_addr = some h) :
    h.target_addr = target_addr := by
  obtain ⟨self, hfind, rfl⟩ := Option.map_eq_some_iff.mp hat
  exact rb_find_some hfind

theorem Same.find_eq_none_iff (h : Same s s') :
    s'.find target_addr = none ↔ s.find target_addr = none := by
  have hat := h.hookedAt target_addr
  unfold Switches.hookedAt at hat
  rw [← Option.map_eq_none_iff (f := Switch.hooked), hat, Option.map_eq_none_iff]

theorem Inv.same (hs : s.Inv libs) (h : Same s s') : s'.Inv libs where
  insts := h.insts ▸ hs.insts
  hooked := fun f => by
    rw [h.insts, h.hookedAt, h.invisible]
    exact hs.hooked f
  unseen := fun f hf => by
    rw [h.find_eq_none_iff, h.safe]
    exact hs.unseen f (h.invisible ▸ hf)
  targets := h.safe ▸ hs.targets
  safe := fun addr haddr => by
    rw [h.safe] at haddr
    rw [origAt, h.hookedAt]
    exact hs.safe addr haddr

/-- A function without a switch has no safe address in use. -/
theorem Inv.unused (hs : s.Inv libs) (hfind : s.find target_addr = none) :
    Unused target_addr s.safe := by
  rintro addr haddr rfl
  rw [hs.safe addr haddr, origAt, hookedAt, hfind]
  rfl

/-- The function of one switch is hooked or not, and its safe address is set. -/
theorem Inv.changed (hs : s.Inv libs) {self : Option Switch}
    (hself : ∀ other, self = some other → other.target_addr = target_addr)
    (hchanged : Changed s s' target_addr self) (hinsts : s'.insts.Inv libs)
    (hhooked : ∀ h, h ∈ s'.insts.hooked ↔ h.target_addr ≠ target_addr ∧ h ∈ s.insts.hooked ∨
      self.map Switch.hooked = some h)
    (hsafe : s'.safe = store_safe target_addr (s'.origAt target_addr) s.safe)
    (hinvisible : s'.invisible = s.invisible)
    (hunseen : ∀ h ∈ s.invisible, h.target_addr ≠ target_addr) : s'.Inv libs := by
  have hat : ∀ addr, s'.hookedAt addr =
      if addr = target_addr then self.map Switch.hooked else s.hookedAt addr := by
    intro addr
    rw [hookedAt, hchanged]
    split <;> rfl
  refine ⟨hinsts, fun h => ?_, fun h hh => ?_, ?_, fun addr haddr => ?_⟩
  · rw [hhooked, hat, hinvisible]
    split
    · rename_i heq
      have hnot : h ∉ s.invisible := fun hh => hunseen h hh heq
      simp [heq, hnot]
    · rename_i hne
      rw [hs.hooked]
      refine ⟨fun h' => ?_, fun h' => .inl ⟨hne, h'⟩⟩
      rcases h' with h' | h'
      · exact h'.2
      · obtain ⟨other, hother, rfl⟩ := Option.map_eq_some_iff.mp h'
        exact absurd (hself other hother) hne
  · rw [hinvisible] at hh
    rw [hchanged, if_neg (hunseen h hh), hsafe, store_safe_targets]
    exact hs.unseen h hh
  · rw [hsafe, store_safe_targets]
    exact hs.targets
  · rw [hsafe] at haddr
    rw [store_safe_values _ hs.targets hs.safe addr haddr, Function.update_apply]
    split
    · rename_i heq
      rw [heq]
    · rename_i hne
      rw [origAt, origAt, hat, if_neg hne]

/-- The tree stays, and the same functions are hooked. -/
theorem Inv.kept (hs : s.Inv libs) {insts : Insts page} (hinsts : insts.Inv libs)
    (hhooked : insts.hooked = s.insts.hooked) : Inv libs { s with insts } :=
  ⟨hinsts, fun h => hhooked ▸ hs.hooked h, hs.unseen, hs.targets, hs.safe⟩

/-- A hook of a function that fails for lack of memory, after the function was hooked: then the
function can be unhooked again, and it has no safe address. -/
def Recovers (mode : SwitchMode) (s : Switches page) (p : Inserting page)
    (answers : InsertAnswers) : Prop :=
  mode = .shared → answers.proxy = false → ∀ insts inst,
    s.insts.hook p.call.lib p.call.target_addr p.call.dli_ssize p.dest answers.inst
      = some (insts, .ok inst) →
    answers.unhook.AllowsHead ∧ ∀ addr ∈ s.safe, addr.target_addr ≠ p.call.target_addr

/-- A function that is hooked without a switch is none that the library calls itself. -/
def HooksUnsafe (s : Switches page) (call : SwitchHook page) (answers : HookAnswers) : Prop :=
  ∀ insts inst, s.insts.hook call.lib call.target_addr call.dli_ssize call.new_addr answers
    = some (insts, .ok inst) → call.target_addr ∉ s.safe.map SafeAddr.target_addr

variable {p : Inserting page} {answers : InsertAnswers} {r : HookReturn}

/-- The second part of a hook keeps the tree, the hooked functions and the safe addresses
together. -/
theorem Inserted.inv (hlibs : Exits.LibrariesApart libs) (hs : s.Inv libs)
    (hfind : s.find p.call.target_addr = none)
    (hmay : s.insts.MayHook libs p.call.lib p.call.target_addr p.call.dli_ssize answers.inst)
    (hwhole : answers.unhook.write.Whole) (hrecovers : s.Recovers mode p answers)
    (h : Inserted mode s p.call p.dest answers (s', r)) : s'.Inv libs := by
  obtain ⟨g, hg⟩ := hs.insts
  have hunused := hs.unused hfind
  cases h with
  | error hook =>
      rw [store_orig_addr2_error mode hunused]
      exact hs.kept (hg.hook hlibs hmay hook) (Insts.hooked_of_hook_error hook)
  | ok proxy hook formed calls =>
      rename_i insts inst hub
      have hhooked := Insts.hooked_of_hook hook
      have hchanged := changed_insert (show s.find (Switch.mk p.call.target_addr p.dest inst hub).1
        = _ from hfind) insts (store_orig_addr2 mode p.call.target_addr (.ok inst) s.safe)
      obtain ⟨g', hg'⟩ := hg.hook hlibs hmay hook
      refine hs.changed (fun other hother => ?_) hchanged ⟨g', hg'⟩ (fun h => ?_) ?_ rfl
        fun h hh => hg'.target_ne hhooked ((hs.hooked h).mpr (.inr hh))
      · obtain rfl := Option.some.inj hother
        rfl
      · simp only [hhooked, List.mem_cons, Option.map_some, Option.some.injEq]
        rw [or_comm, eq_comm]
        exact or_congr_left ⟨fun hmem => ⟨hg'.target_ne hhooked hmem, hmem⟩, And.right⟩
      · rw [origAt, hookedAt, hchanged, if_pos rfl]
        exact store_orig_addr2_ok mode hunused inst
  | oom shared proxy hook unhook =>
      rename_i insts insts' inst e
      obtain ⟨hallows, htargets⟩ := hrecovers shared proxy _ _ hook
      obtain ⟨g', hg'⟩ := hg.hook hlibs hmay hook
      have hhooked := Insts.hooked_of_hook hook
      obtain ⟨hinsts, hrestored⟩ := hg'.unhook hlibs
        (hhooked ▸ List.mem_cons_self ..) hwhole unhook
      have hhooked' := Insts.hooked_of_unhook unhook
      rw [hrestored.mpr hallows, if_pos rfl, hhooked, List.erase_cons_head] at hhooked'
      rw [store_orig_addr2_ok mode hunused, store_safe_eq _ htargets]
      exact hs.kept hinsts hhooked'

/-- An unhook does, if the head can be restored. -/
theorem Unhooked.inv (hlibs : Exits.LibrariesApart libs) (hs : s.Inv libs)
    {answers : UnhookAnswers} {errno : Option SwitchErrno} (hwhole : answers.write.Whole)
    (hallows : Last mode s target_addr new_addr → answers.AllowsHead)
    (h : Unhooked mode s target_addr new_addr answers (s', errno)) : s'.Inv libs := by
  cases h with
  | kept more formed same step => exact hs.same same
  | removed last find unhook changed insts_eq safe_eq invisible_eq =>
      rename_i self insts e
      obtain rfl := rb_find_some find
      obtain ⟨g, hg⟩ := hs.insts
      have hat : s.hookedAt self.target_addr = some self.hooked := by
        rw [hookedAt, find]
        rfl
      have hmem : self.hooked ∈ s.insts.hooked := (hs.hooked self.hooked).mpr (.inl hat)
      have hunseen : ∀ h ∈ s.invisible, h.target_addr ≠ self.target_addr := by
        intro h hh heq
        have hnone := (hs.unseen h hh).1
        rw [heq, find] at hnone
        cases hnone
      obtain ⟨hinsts, hrestored⟩ := hg.unhook hlibs hmem hwhole unhook
      have hhooked := Insts.hooked_of_unhook unhook
      rw [hrestored.mpr (hallows last), if_pos rfl] at hhooked
      refine hs.changed (fun _ h => (by cases h)) changed (insts_eq ▸ hinsts) (fun h => ?_) ?_
        invisible_eq hunseen
      · rw [insts_eq, hhooked, hg.nodup.mem_erase_iff]
        simp only [Option.map_none, reduceCtorEq, or_false]
        refine and_congr_left fun hh => not_congr ⟨fun heq => heq ▸ rfl, fun heq => ?_⟩
        rcases (hs.hooked h).mp hh with hat' | hh'
        · rw [heq, hat] at hat'
          exact (Option.some.inj hat').symm
        · exact absurd heq (hunseen h hh')
      · rw [safe_eq, origAt, hookedAt, changed, if_pos rfl]
        rfl

/-- A function is hooked without a switch, and the library does not call it itself. -/
theorem Inv.invisible (hlibs : Exits.LibrariesApart libs) (hs : s.Inv libs)
    {call : SwitchHook page} {answers : HookAnswers}
    (hmay : s.insts.MayHook libs call.lib call.target_addr call.dli_ssize answers)
    (hforeign : s.HooksUnsafe call answers)
    (hresult : s.sh_switch_hook_unique_invisible call answers = some (s', r)) : s'.Inv libs := by
  obtain ⟨g, hg⟩ := hs.insts
  rcases invisible_cases hresult with ⟨insts, e, hhook, rfl⟩ | ⟨insts, inst, hhook, rfl⟩
  · exact hs.kept (hg.hook hlibs hmay hhook) (Insts.hooked_of_hook_error hhook)
  · have hhooked := Insts.hooked_of_hook hhook
    obtain ⟨g', hg'⟩ := hg.hook hlibs hmay hhook
    have hfind : s.find call.target_addr = none := by
      by_contra hsome
      obtain ⟨self, hself⟩ := Option.ne_none_iff_exists'.mp hsome
      have htarget := rb_find_some hself
      have hat : s.hookedAt self.target_addr = some self.hooked := by
        rw [hookedAt, htarget, hself]
        rfl
      exact hg'.target_ne hhooked ((hs.hooked self.hooked).mpr (.inl hat)) htarget
    refine ⟨⟨g', hg'⟩, fun h => ?_, ?_, hs.targets, hs.safe⟩
    · rw [hhooked, List.mem_cons, List.mem_cons, hs.hooked]
      exact or_left_comm
    · exact List.forall_mem_cons.mpr ⟨⟨hfind, hforeign insts inst hhook⟩, hs.unseen⟩

/-- The invariant is what is asked of every state. -/
theorem Inv.sound (hlibs : Exits.LibrariesApart libs) (hs : s.Inv libs) (hformed : s.Formed mode) :
    s.Sound libs mode := by
  obtain ⟨g, hg⟩ := hs.insts
  refine ⟨hg.sound hlibs, hs.hooked, hformed, fun addr haddr => ?_⟩
  have hnone : (s.invisible.find? fun h => h.target_addr = addr.target_addr) = none := by
    rw [List.find?_eq_none]
    intro h hh heq
    refine (hs.unseen h hh).2 ?_
    rw [of_decide_eq_true heq]
    exact List.mem_map_of_mem haddr
  rw [SafeAddr.callee, hs.safe addr haddr, origAt, codeAt, overwritten, hnone, Option.or_none]
  cases hat : s.hookedAt addr.target_addr with
  | none => rfl
  | some h =>
      have hmem := (hs.hooked h).mpr (.inl (hookedAt_some hat ▸ hat))
      exact if_pos (Nat.pos_iff_ne_zero.mp (hg.enter_ne hmem).1)

theorem inv_start (safe_functions : List ℕ) (hnodup : safe_functions.Nodup)
    (m : ByteMemory.Memory) : Inv libs
      ⟨[], .start page m, safe_functions.map fun target_addr => ⟨target_addr, 0⟩, []⟩ := by
  refine ⟨Insts.inv_start m, fun h => ⟨fun hh => (by cases hh), fun hh => ?_⟩,
    fun h hh => (by cases hh), ?_, ?_⟩
  · rcases hh with hh | hh
    · cases hh
    · cases hh
  · rw [List.map_map]
    exact (List.map_id safe_functions).symm ▸ hnodup
  · intro addr haddr
    obtain ⟨target_addr, -, rfl⟩ := List.mem_map.mp haddr
    rfl

end Switches

namespace SwitchSystem

variable {page : PageSize} {τ : Type} [DecidableEq τ] {libs : List (ExitLibrary page.bytes)}
  {mode : SwitchMode} {s s' : SwitchSystem page τ}

/-- What the system and the callers keep to.  No library is closed. -/
def Disciplined (libs : List (ExitLibrary page.bytes)) (s : SwitchSystem page τ) :
    SwitchAct page τ → Prop
  | .find .. | .read .. => True
  | .invisible call answers =>
      s.switches.insts.MayHook libs call.lib call.target_addr call.dli_ssize answers
  | .insert thread answers => ∀ p, s.inserting thread = some p →
      s.switches.find p.call.target_addr = none →
        s.switches.insts.MayHook libs p.call.lib p.call.target_addr p.call.dli_ssize answers.inst ∧
          answers.unhook.write.Whole
  | .unhook _ _ answers => answers.write.Whole
  | .close .. => False
  | .store a bytes => s.switches.insts.Disciplined libs (.store a bytes)

/-- The system does not keep `sh_inst_unhook` from restoring a function, and a hook that has no
memory for a proxy, or that has no switch, is not one of a function that the library calls
itself. -/
def Restores (mode : SwitchMode) (s : SwitchSystem page τ) : SwitchAct page τ → Prop
  | .insert thread answers => ∀ p, s.inserting thread = some p →
      s.switches.find p.call.target_addr = none → s.switches.Recovers mode p answers
  | .unhook target_addr new_addr answers =>
      s.switches.Last mode target_addr new_addr → answers.AllowsHead
  | .invisible call answers => s.switches.HooksUnsafe call answers
  | _ => True

/-- The switches that threads have in their hands are of the mode, too. -/
structure Inv (libs : List (ExitLibrary page.bytes)) (mode : SwitchMode)
    (s : SwitchSystem page τ) : Prop where
  formed : s.Formed mode
  switches : s.switches.Inv libs

theorem Inv.step (hlibs : Exits.LibrariesApart libs) (hs : s.Inv libs mode) {a : SwitchAct page τ}
    (hguard : s.Disciplined libs a) (hrestores : s.Restores mode a)
    (hstep : s.step mode a = some s') : s'.Inv libs mode := by
  have hact := exists_act hstep
  refine ⟨(hs.formed.act hact).1, ?_⟩
  generalize s.event mode a = event at hact
  cases a with
  | find thread call answers =>
      simp only [act] at hact
      split at hact
      · cases hact
      · obtain ⟨⟨switches, found⟩, hfound, hout⟩ := Option.map_eq_some_iff.mp hact
        obtain ⟨-, hsame, -⟩ := Switches.find_or_create_spec hs.formed.switches hfound
        cases found with
        | done r => exact (Prod.mk.inj hout).1 ▸ hs.switches.same hsame
        | added r inst => exact (Prod.mk.inj hout).1 ▸ hs.switches.same hsame
        | create hub_trampo => exact (Prod.mk.inj hout).1 ▸ hs.switches.same hsame
  | insert thread answers =>
      obtain ⟨p, hp, hout⟩ := Option.bind_eq_some_iff.mp hact
      obtain ⟨⟨switches, r⟩, hinsert, hout⟩ := Option.map_eq_some_iff.mp hout
      obtain rfl := (Prod.mk.inj hout).1
      rcases insert_cases hs.formed.switches (hs.formed.inserting thread p hp) hinsert with
        ⟨_, _, _, hsame, _⟩ | ⟨hfind, hinserted⟩
      · exact hs.switches.same hsame
      · obtain ⟨hmay, hwhole⟩ := hguard p hp hfind
        exact hinserted.inv hlibs hs.switches hfind hmay hwhole (hrestores p hp hfind)
  | read thread freed =>
      obtain ⟨p, hp, hout⟩ := Option.map_eq_some_iff.mp hact
      exact (Prod.mk.inj hout).1 ▸ hs.switches
  | invisible call answers =>
      cases mode with
      | shared => cases hact
      | unique =>
          obtain ⟨⟨switches, r⟩, hhook, hout⟩ := Option.map_eq_some_iff.mp hact
          obtain rfl := (Prod.mk.inj hout).1
          exact hs.switches.invisible hlibs hguard hrestores hhook
  | unhook target_addr new_addr answers =>
      obtain ⟨⟨switches, errno⟩, hunhook, hout⟩ := Option.map_eq_some_iff.mp hact
      obtain rfl := (Prod.mk.inj hout).1
      have hcases := Switches.unhook_cases hs.formed.switches hunhook
      exact hcases.inv hlibs hs.switches hguard hrestores
  | close dlinfo now => exact hguard.elim
  | store a bytes =>
      obtain rfl := (Prod.mk.inj (Option.some.inj hact)).1
      obtain ⟨g, hg⟩ := hs.switches.insts
      exact ⟨hg.stored hlibs hguard, hs.switches.hooked, hs.switches.unseen, hs.switches.targets,
        hs.switches.safe⟩

/-- A thread hooks the first function of the library, whose hub has its trampoline at
`0x50000`, and unhooks it. -/
def smallActs : List (SwitchAct Insts.smallPage Bool) :=
  [.find true ⟨Exits.smallLibrary, 0x20, 0x40000, 0x70000⟩ ⟨true, some 0x50000, true⟩,
    .insert true ⟨Insts.smallAnswers, true, ⟨false, ⟨true, none⟩,
      ⟨fun _ => false, fun _ => true, fun _ => none⟩, 102, 103⟩⟩,
    .unhook 0x40000 0x70000
      ⟨false, ⟨true, none⟩, ⟨fun _ => false, fun _ => true, fun _ => none⟩, 104, 105⟩]

end SwitchSystem

end ShadowHook
