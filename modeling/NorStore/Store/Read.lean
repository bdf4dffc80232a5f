import NorStore.Store.Write

/-!
# Reading

`readVersion key size n` looks up the `n`-th newest version of a key (deletions count as
versions) and copies as much of its value as fits a buffer of `size` bytes; `get key` returns
the newest value whole. Both fail with `notFound` when the version asked for is a deletion or
does not exist, and are counted in the meters as `read`.
-/

namespace NorStore.StoreM

/-- The stored length of version `n` of `key` and the first `size` bytes of its value. -/
def readVersion (key : ByteArray) (size : Nat) (n : Int) : StoreM (Nat × ByteArray) :=
  observed "read" do
    let k ← keyField "read" key
    if n < 0 then
      throw (.store "read" key none "negative history index" (some (.kind .invalidArgument)))
    if !(← store).mounted then throw (.store "read" key none "" (some (.kind .notMounted)))
    wrapFault "read" key do
      let (e, here) ← findVersion k n.toNat
      let count := min size e.length.toNat
      let bytes ← if count > 0 then read (valueAddr here e) count else pure ByteArray.empty
      pure (e.length.toNat, bytes)

/-- The newest value of `key`. -/
def get (key : ByteArray) : StoreM ByteArray :=
  observed "read" do
    let k ← keyField "get" key
    if !(← store).mounted then throw (.store "get" key none "" (some (.kind .notMounted)))
    wrapFault "get" key do
      let (e, here) ← findVersion k 0
      read (valueAddr here e) e.length.toNat

end NorStore.StoreM
