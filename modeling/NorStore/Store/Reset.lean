import NorStore.Store.Usage

/-!
# Clearing and formatting

Both erase every sector of the region and start afresh with an empty store. `clear` needs a
mounted store; `format` only a valid configuration, so it also repairs a region that cannot be
mounted.
-/

namespace NorStore.StoreM

/-- Erases every sector and recovers the cursors of the empty region. -/
def reset (op : String) : StoreM Unit := do
  setMounted false
  let n := (← store).config.sectorCount.toNat
  for i in List.range n do
    tryCatch (eraseSector (Address.make i.toUInt32 0)) fun f =>
      throw (.store op ByteArray.empty none "" (some f))
  tryCatch startup fun f => throw (.store op ByteArray.empty none "" (some f))
  setMounted true
  logAt .info "erased all sectors" [("operation", .text op)]

/-- Empties a mounted store. -/
def clear : StoreM Unit :=
  observed "clear" do
    if !(← store).mounted then
      throw (.store "clear" ByteArray.empty none "" (some (.kind .notMounted)))
    reset "clear"

/-- Empties the region, whatever it holds. -/
def format : StoreM Unit :=
  observed "format" do
    if let .error f := (← store).config.validate then
      throw (.store "format" ByteArray.empty none "" (some f))
    reset "format"

end NorStore.StoreM
