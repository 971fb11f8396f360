import XenAccess.Model.Init

/-!
# Initialisation by name

`xa_get_domain_id` of `xa_domain_info.c` and the two functions of `xa_core.c` that take the
name of a domain.

`Host` is one domain with the services for it. A machine has many domains; the services of
the hypervisor get the domain id as an argument, and xenstore is one for all.
-/

namespace XenAccess

/-- A machine with its domains. -/
structure Machine where
  /-- `xs_directory` of `/local/domain` -/
  xsDirectory : List CStr
  xsRead : CStr → Option CStr
  /-- the services for a domain id -/
  domain : U32 → Host

/-- The domain with an id, which sees the xenstore of the machine. -/
def Machine.host (m : Machine) (id : U32) : Host := { m.domain id with xsRead := m.xsRead }

variable (m : Machine)

/-- `atoi`. -/
def atoi (s : CStr) : U32 := strtol10 s

/-- The key of the name of a domain. -/
def domainNamePath (idStr : CStr) : CStr := cstr "/local/domain/" ++ idStr ++ cstr "/name"

/-- The loop of `xa_get_domain_id`. -/
def findDomainId (name : CStr) : List CStr → Except Fault U32
  | [] => .ok 0
  | idStr :: domains =>
    match m.xsRead (domainNamePath idStr) with
    -- `strncmp` with `NULL`
    | none => .error .nullString
    | some nameCandidate =>
      if strncmpEq name nameCandidate 100 then .ok (atoi idStr) else findDomainId name domains

/-- `xa_get_domain_id`. -/
def xaGetDomainId (name : CStr) : Except Fault U32 := findDomainId m name m.xsDirectory

/-- The body of the two functions. -/
def xaInitVmName (errorMode : ErrorMode) (fuel : Nat) (domainName : CStr) : XaM Ret :=
  match xaGetDomainId m domainName with
  | .error e => throw e
  | .ok domainId => xaInitVmPrivate (m.host domainId) fuel domainId errorMode

/-- `xa_init_vm_name_strict`. -/
def xaInitVmNameStrict (fuel : Nat) (domainName : CStr) : XaM Ret :=
  xaInitVmName m .failhard fuel domainName

/-- `xa_init_vm_name_lax`. -/
def xaInitVmNameLax (fuel : Nat) (domainName : CStr) : XaM Ret :=
  xaInitVmName m .failsoft fuel domainName

end XenAccess
