import PersistentTier.Object.Codec
import PersistentTier.Pool.Basic

/-!
# The image of a pool

The image is the whole pool as one record: format version, id, root, slots and free list. It is
replaced atomically, so what stands at its path is always one complete image.

## Main definitions

* `Image`, `Image.encode`, `Image.decode`
* `Pool.image`, `Pool.save`, `Pool.checkpoint`, `Pool.makeDurable`: writing
* `Pool.open`, `Pool.close`: from a location to a pool and back
-/

namespace PersistentTier

open MessagePack

/-- The stored part of a pool. -/
structure Image where
  version : Nat := formatVersion
  id : UInt64
  root : Root := {}
  slots : List (Option Object) := []
  /-- Offsets of empty slots, the next one to be used last. -/
  free : List UInt64 := []
  deriving DecidableEq, Repr, Inhabited

namespace Image

/-- The stored form of an image. -/
def encode (image : Image) : Bytes :=
  writeArrayHeader 5 ++ writeUnsigned image.version ++ writeWord image.id ++ image.root.encode
    ++ writeArray (writeOption Object.encode) image.slots
    ++ writeArray writeWord image.free

/-- How an image is read. -/
def schema : Schema Image where
  names := ["version", "pool_id", "root", "slots", "free_slots"].map Bytes.ascii
  blank := { id := 0 }
  field
    | 0, image, h => return { image with version := ← below UInt32.size h }
    | 1, image, h => return { image with id := ← word h }
    | 2, image, h => return { image with root := ← Root.decoder h }
    | 3, image, h => return { image with slots := ← listOf (option Object.decoder) h }
    | _, image, h => return { image with free := ← listOf word h }

/-- The image at the front of a byte string, which has to be of the current version. -/
def decode (bytes : Bytes) : Except CodecFault Image :=
  match MessagePack.decode? schema.decoder bytes with
  | none => .error .malformed
  | some image =>
    if image.version = formatVersion then .ok image
    else .error (.unsupportedVersion image.version)

/-- The image at a location, if anything stands there. -/
def load (place : Location) : Except Cause (Option Image) := do
  match place.standing with
  | .absent => return none
  | .directory =>
    place.attempt .openImage
    throw (.io (.failed .readImage .isDirectory))
  | .file content =>
    place.attempt .openImage
    place.attempt .readImage
    match decode content with
    | .ok image => return some image
    | .error fault => throw (.codec fault)

end Image

namespace Pool

/-- The image of a pool. -/
def toImage (p : Pool) : Image where
  id := p.id
  root := p.root
  slots := p.slots.toList
  free := p.free.reverse

/-- Replaces the image at a location: a file is written beside it and then put in its place. -/
def install (image : Image) (place : Location) : Except Cause Location := do
  place.attempt .createPoolDirectory
  place.attempt .createTempImage
  place.attempt .writeImage
  place.attempt .syncImage
  place.install .installImage image.encode

/-- Writes the image of a pool that has one. -/
def save (p : Pool) : Except Cause Pool :=
  match p.image with
  | none => .ok p
  | some place => do
    return { p with image := some (← install p.toImage place) }

/-- Writes the image, whatever the durability mode. -/
def checkpoint (p : Pool) : Except Cause Pool := p.save

/-- What a commit writes: the image, if the mode is synchronous. -/
def makeDurable (p : Pool) : Except Cause Pool :=
  match p.options.durability with
  | .sync => p.save
  | _ => .ok p

/-- The pool of an image. -/
def ofImage (image : Image) (place : Location) (options : PoolOptions) : Except Crash Pool :=
  if h : image.slots.length ≤ maxSlots then
    .ok {
      id := image.id
      root := image.root
      slots := image.slots.toArray
      free := image.free.reverse
      image := some place
      options := options
      size_le := by simpa using h }
  else .error .outOfMemory

/-- Opens the pool at a location, or creates an empty one there under the id `fresh`. Without
durability the location is left alone and the pool lives in memory. -/
def «open» (place : Location) (options : PoolOptions) (fresh : UInt64) : Except Failure Pool :=
  match options.durability with
  | .none => .ok (empty fresh options)
  | _ =>
    match Image.load place with
    | .error cause => .error (.cause cause)
    | .ok (some image) => (ofImage image place options).mapError .crash
    | .ok none => ({ empty fresh options with image := some place }).save.mapError .cause

/-- Closes a pool. In the asynchronous mode its image is written if that is possible. -/
def close (p : Pool) : Option Location :=
  match p.options.durability with
  | .async => (p.checkpoint.toOption.getD p).image
  | _ => p.image

end Pool

end PersistentTier
