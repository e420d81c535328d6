/-
# Hooking by the address of a function

`sh_switch.c` has a switch for each function that is hooked, in a tree with its own lock.  In
shared mode a switch has a hub: its function leads to the trampoline of the hub, and hooking it
again adds a proxy.  In unique mode a function can be hooked only once.

A hook looks for the switch first, and creates one without the lock.  It looks again when it
inserts it.  A hook that finds a switch reads the length of what was overwritten after it has given
the lock back.  The hooks of the linker (`sh_switch_hook_invisible`) have no switch in unique mode.
-/
import LiuHookWorld.HubStack
import LiuHookWorld.InstRuns

namespace ShadowHook

/-! ## The source -/

inductive SwitchErrno where
  | OOM
  | HUB_CREAT
  | HOOK_DUP
  | UNHOOK_NOTFOUND
  | INST (e : InstErrno)
deriving DecidableEq

/-- `sh_safe_addr_t` -/
structure SafeAddr where
  target_addr : ℕ
  orig_addr : ℕ

def sh_safe_get_orig_addr_addr (safe : List SafeAddr) (target_addr : ℕ) : Option SafeAddr :=
  safe.find? fun addr => addr.target_addr = target_addr

/-- A store to what `sh_safe_get_orig_addr_addr` returns. -/
def store_safe (target_addr orig_addr : ℕ) : List SafeAddr → List SafeAddr
  | [] => []
  | addr :: addrs =>
      if addr.target_addr = target_addr then { addr with orig_addr := orig_addr } :: addrs
      else addr :: store_safe target_addr orig_addr addrs

/-- `sh_safe_get_orig_addr`: where the library calls a function that it needs itself. -/
def SafeAddr.callee (addr : SafeAddr) : ℕ :=
  if addr.orig_addr ≠ 0 then addr.orig_addr else addr.target_addr

/-- `sh_switch_t`.  `new_addr` is where `inst` leads to. -/
structure Switch where
  target_addr : ℕ
  new_addr : ℕ
  inst : Inst
  hub : Option Hub

def Switch.hooked (self : Switch) : HookedFunction := ⟨self.target_addr, self.new_addr, self.inst⟩

/-- The nodes of `sh_switches` in their order, the functions that are hooked, `sh_safe_addrs`, and
the functions that are hooked without a switch. -/
structure Switches (page : PageSize) where
  tree : List Switch
  insts : Insts page
  safe : List SafeAddr
  invisible : List HookedFunction

/-- The arguments of `sh_switch_hook`. -/
structure SwitchHook (page : PageSize) where
  lib : ExitLibrary page.bytes
  dli_ssize : ℕ
  target_addr : ℕ
  new_addr : ℕ

/-- What `sh_switch_hook` returns, and what it stores to `*orig_addr` and `*backup_len`. -/
structure HookReturn where
  errno : Option SwitchErrno
  orig_addr : Option ℕ
  backup_len : Option ℕ

/-- What the system answers before a switch is inserted: to `memalign`, to `sh_hub_create`, which
returns a trampoline, and to `malloc` for a proxy. -/
structure FindAnswers where
  switch : Bool
  hub : Option ℕ
  proxy : Bool

/-- What it answers when one is inserted. -/
structure InsertAnswers where
  inst : HookAnswers
  proxy : Bool
  unhook : UnhookAnswers

/-- The ends of the first part of a hook.  After `added`, `*backup_len` is still to be read from
the switch, whose `inst` it is. -/
inductive SwitchFound where
  | done (result : HookReturn)
  | added (result : HookReturn) (inst : Inst)
  | create (hub_trampo : Option ℕ)

def AddProxy.errno : AddProxy → Option SwitchErrno
  | .ok => none
  | .hookDup => some .HOOK_DUP
  | .oom => some .OOM

/-- What `sh_inst_hook` stores to `*orig_addr`. -/
def orig_stored : Except InstErrno Inst → Option ℕ
  | .ok inst => some inst.enter_addr
  | .error .HOOK_ENTER => none
  | .error _ => some 0

/-- `sh_inst_hook` stores the same to `*orig_addr2`, the safe address of the function, which it
does not get in unique mode if it is in use. -/
def store_orig_addr2 (mode : SwitchMode) (target_addr : ℕ) (result : Except InstErrno Inst)
    (safe : List SafeAddr) : List SafeAddr :=
  match orig_stored result with
  | none => safe
  | some orig_addr =>
      match mode with
      | .shared => store_safe target_addr orig_addr safe
      | .unique =>
          match sh_safe_get_orig_addr_addr safe target_addr with
          | some ⟨_, 0⟩ => store_safe target_addr orig_addr safe
          | _ => safe

/-- `RB_FIND` -/
def rb_find (target_addr : ℕ) (tree : List Switch) : Option Switch :=
  tree.find? fun self => self.target_addr = target_addr

/-- `RB_INSERT`, if no node has the address. -/
def rb_insert (self : Switch) : List Switch → List Switch
  | [] => [self]
  | node :: nodes =>
      if self.target_addr < node.target_addr then self :: node :: nodes
      else node :: rb_insert self nodes

def rb_remove (target_addr : ℕ) (tree : List Switch) : List Switch :=
  tree.filter fun self => self.target_addr ≠ target_addr

def Switch.with_proxies (self : Switch) (proxies : List Proxy) : Switch :=
  { self with hub := self.hub.map fun hub => { hub with proxies := proxies } }

/-- The hub of a function gets other proxies. -/
def set_proxies (target_addr : ℕ) (proxies : List Proxy) (tree : List Switch) : List Switch :=
  tree.map fun self =>
    if self.target_addr = target_addr then self.with_proxies proxies else self

def sh_util_is_in_elf_pt_load (dlinfo : ExitInfo) (addr : ℕ) : Bool :=
  dlinfo.dli_fbase ≤ addr && dlinfo.dlpi_phdr.any fun phdr =>
    phdr.load && phdr.p_vaddr ≤ addr - dlinfo.dli_fbase
      && addr - dlinfo.dli_fbase < phdr.p_vaddr + phdr.p_memsz

def sh_switch_create (mode : SwitchMode) (answers : FindAnswers) : SwitchFound :=
  if !answers.switch then .done ⟨some .OOM, none, none⟩
  else
    match mode with
    | .unique => .create none
    | .shared =>
        match answers.hub with
        | none => .done ⟨some .HUB_CREAT, none, none⟩
        | some hub_trampo => .create (some hub_trampo)

/-- `sh_inst_free_after_dlclose` -/
def Insts.free_after_dlclose {page : PageSize} (s : Insts page) (h : HookedFunction) (now : ℤ) :
    Insts page :=
  let st :=
    if h.inst.exit_addr ≠ 0 && !h.inst.in_library then
      trampo_free s.st .exit h.inst.exit_addr now
    else s.st
  { s with
    st := trampo_free st .enter h.inst.enter_addr now
    hooked := s.hooked.erase h }

namespace Switches

variable {page : PageSize}

/-- `sh_switch_find` -/
def find (s : Switches page) (target_addr : ℕ) : Option Switch := rb_find target_addr s.tree

/-- A proxy is added to the hub of a switch. -/
def add_proxy (s : Switches page) (self : Switch) (hub : Hub) (new_addr : ℕ) (malloc : Bool) :
    Switches page × HookReturn :=
  let out := sh_hub_add_proxy hub.proxies new_addr malloc
  ({ s with tree := set_proxies self.target_addr out.1 s.tree },
    ⟨out.2.errno, some hub.orig_addr, some self.inst.backup_len⟩)

/-- `sh_switch_hook_unique` and `sh_switch_hook_shared`, up to `pthread_rwlock_wrlock`, or to the
`pthread_rwlock_unlock` behind `sh_hub_add_proxy`. -/
def find_or_create (s : Switches page) (mode : SwitchMode) (call : SwitchHook page)
    (answers : FindAnswers) : Option (Switches page × SwitchFound) :=
  match s.find call.target_addr with
  | none => some (s, sh_switch_create mode answers)
  | some self =>
      match mode with
      | .unique => some (s, .done ⟨some .HOOK_DUP, none, none⟩)
      | .shared =>
          self.hub.map fun hub =>
            let out := s.add_proxy self hub call.new_addr answers.proxy
            (out.1, .added { out.2 with backup_len := none } self.inst)

/-- `sh_switch_hook_unique` from there on. -/
def insert_unique (s : Switches page) (call : SwitchHook page) (answers : InsertAnswers) :
    Option (Switches page × HookReturn) :=
  match s.find call.target_addr with
  | some _ => some (s, ⟨some .HOOK_DUP, none, none⟩)
  | none =>
      (s.insts.hook call.lib call.target_addr call.dli_ssize call.new_addr answers.inst).map
        fun out =>
          let safe := store_orig_addr2 .unique call.target_addr out.2 s.safe
          match out.2 with
          | .error e =>
              ({ s with insts := out.1, safe }, ⟨some (.INST e), orig_stored out.2, none⟩)
          | .ok inst =>
              let self := ⟨call.target_addr, call.new_addr, inst, none⟩
              ({ s with tree := rb_insert self s.tree, insts := out.1, safe },
                ⟨none, orig_stored out.2, some inst.backup_len⟩)

/-- `sh_switch_hook_shared` from there on. -/
def insert_shared (s : Switches page) (call : SwitchHook page) (hub_trampo : ℕ)
    (answers : InsertAnswers) : Option (Switches page × HookReturn) :=
  match s.find call.target_addr with
  | some self => self.hub.map fun hub => s.add_proxy self hub call.new_addr answers.proxy
  | none =>
      (s.insts.hook call.lib call.target_addr call.dli_ssize hub_trampo answers.inst).bind
        fun out =>
          let safe := store_orig_addr2 .shared call.target_addr out.2 s.safe
          match out.2 with
          | .error e => some ({ s with insts := out.1, safe }, ⟨some (.INST e), none, none⟩)
          | .ok inst =>
              let added := sh_hub_add_proxy [] call.new_addr answers.proxy
              let hub : Hub := ⟨added.1, inst.enter_addr⟩
              match added.2.errno with
              | none =>
                  let self := ⟨call.target_addr, hub_trampo, inst, some hub⟩
                  some ({ s with tree := rb_insert self s.tree, insts := out.1, safe },
                    ⟨none, some hub.orig_addr, some inst.backup_len⟩)
              | some e =>
                  -- the safe address is not reset
                  (out.1.unhook ⟨call.target_addr, hub_trampo, inst⟩ answers.unhook).map
                    fun out =>
                      ({ s with insts := out.1, safe }, ⟨some e, some hub.orig_addr, some 0⟩)

/-- `sh_switch_hook_unique_invisible`.  Nothing keeps the `inst` of the hook, and no safe address
is stored.  What it stores to `*backup_len` if it fails is not determined. -/
def sh_switch_hook_unique_invisible (s : Switches page) (call : SwitchHook page)
    (answers : HookAnswers) : Option (Switches page × HookReturn) :=
  (s.insts.hook call.lib call.target_addr call.dli_ssize call.new_addr answers).map fun out =>
    match out.2 with
    | .error e => ({ s with insts := out.1 }, ⟨some (.INST e), orig_stored out.2, none⟩)
    | .ok inst =>
        ({ s with
          insts := out.1
          invisible := ⟨call.target_addr, call.new_addr, inst⟩ :: s.invisible },
          ⟨none, orig_stored out.2, some inst.backup_len⟩)

/-- `sh_switch_unhook_unique` and `sh_switch_unhook_shared`, from `sh_inst_unhook` on. -/
def remove (s : Switches page) (self : Switch) (answers : UnhookAnswers) :
    Option (Switches page × Option SwitchErrno) :=
  (s.insts.unhook self.hooked answers).map fun out =>
    ({ s with
      tree := rb_remove self.target_addr s.tree
      insts := out.1
      safe := store_safe self.target_addr 0 s.safe }, out.2.map .INST)

def sh_switch_unhook_unique (s : Switches page) (target_addr : ℕ) (answers : UnhookAnswers) :
    Option (Switches page × Option SwitchErrno) :=
  match s.find target_addr with
  | none => some (s, some .UNHOOK_NOTFOUND)
  | some self => s.remove self answers

def sh_switch_unhook_shared (s : Switches page) (target_addr new_addr : ℕ)
    (answers : UnhookAnswers) : Option (Switches page × Option SwitchErrno) :=
  match s.find target_addr with
  | none => some (s, some .UNHOOK_NOTFOUND)
  | some self =>
      self.hub.bind fun hub =>
        let out := sh_hub_del_proxy hub.proxies new_addr
        let s := { s with tree := set_proxies target_addr out.1 s.tree }
        match out.2 with
        | none => some (s, some .UNHOOK_NOTFOUND)
        | some true => some (s, none)
        | some false => s.remove self answers

def sh_switch_unhook (s : Switches page) (mode : SwitchMode) (target_addr new_addr : ℕ)
    (answers : UnhookAnswers) : Option (Switches page × Option SwitchErrno) :=
  match mode with
  | .unique => s.sh_switch_unhook_unique target_addr answers
  | .shared => s.sh_switch_unhook_shared target_addr new_addr answers

/-- `now` is the time at which a function is freed. -/
def sh_switch_free_after_dlclose (s : Switches page) (dlinfo : ExitInfo) (now : ℕ → ℤ) :
    Switches page :=
  let closed := fun self : Switch => sh_util_is_in_elf_pt_load dlinfo self.target_addr
  { s with
    tree := s.tree.filter fun self => !closed self
    insts := (s.tree.filter closed).foldl
      (fun insts self => insts.free_after_dlclose self.hooked (now self.target_addr)) s.insts }

end Switches

end ShadowHook
