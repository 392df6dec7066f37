import LeaseEscrow.Ident.Account
import LeaseEscrow.Ident.ResourceId
import LeaseEscrow.Store.Basic

/-!
# The keys of the registry

A key is a kind byte and what names the record. Index keys list resources by account:
the address, a zero byte that no address holds, and the resource id.
-/

namespace LeaseEscrow.Key

/-- What a resource is indexed by. -/
inductive Index where
  | owner
  | lessee
deriving DecidableEq

def resourceKind : UInt8 := 1

def leaseKind : UInt8 := 2

def counterKind : UInt8 := 3

def paramsKind : UInt8 := 4

def Index.kind : Index → UInt8
  | .owner => 5
  | .lessee => 6

def separator : UInt8 := 0

def resource (id : ResourceId) : Bytes := resourceKind :: id.bytes

def lease (id : ResourceId) : Bytes := leaseKind :: id.bytes

def counter : Bytes := [counterKind]

def params : Bytes := [paramsKind]

/-- What every index key of an account begins with. -/
def account (i : Index) (a : Account) : Bytes := i.kind :: a.bytes ++ [separator]

def entry (i : Index) (a : Account) (id : ResourceId) : Bytes := account i a ++ id.bytes

end LeaseEscrow.Key
