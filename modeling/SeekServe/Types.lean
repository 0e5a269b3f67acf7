import SeekServe.Lib.CxxString

/-! Identifiers, error codes and the configuration that the modelled code reads.
File and piece indices (`std::int32_t` in the code) are integers. -/

namespace SeekServe

set_option autoImplicit false

abbrev TorrentId := CxxString

abbrev Byte := UInt8

structure PieceSpan where
  first : Int
  /-- inclusive -/
  last : Int
  firstOffset : Int
  lastLength : Int
  deriving DecidableEq, Repr

structure ByteRange where
  start : Int
  /-- inclusive, per RFC 7233 -/
  stop : Int
  deriving DecidableEq, Repr

structure FileInfo where
  index : Int
  path : CxxString
  size : Int
  offsetInTorrent : Int
  firstPiece : Int
  /-- exclusive -/
  endPiece : Int
  deriving DecidableEq, Repr

inductive Errc where
  | success
  | torrentNotFound
  | fileNotFound
  | metadataNotReady
  | pieceNotAvailable
  | timeoutWaitingForPiece
  | rangeNotSatisfiable
  | serverAlreadyRunning
  | sessionNotStarted
  | invalidArgument
  | ioError
  | cancelled
  deriving DecidableEq, Repr

def Errc.message : Errc → CxxString
  | .success => "success".toList
  | .torrentNotFound => "torrent not found".toList
  | .fileNotFound => "file not found".toList
  | .metadataNotReady => "metadata not ready".toList
  | .pieceNotAvailable => "piece not available".toList
  | .timeoutWaitingForPiece => "timeout waiting for piece".toList
  | .rangeNotSatisfiable => "range not satisfiable".toList
  | .serverAlreadyRunning => "server already running".toList
  | .sessionNotStarted => "session not started".toList
  | .invalidArgument => "invalid argument".toList
  | .ioError => "I/O error".toList
  | .cancelled => "cancelled".toList

abbrev Result (α : Type) := Except Errc α

/-- libtorrent's `info_hash_t`: a SHA-1 hash, a SHA-256 hash, or both. -/
structure InfoHash where
  v1 : Option (Vector UInt8 20)
  v2 : Option (Vector UInt8 32)
  deriving DecidableEq, Repr

def InfoHash.hasV2 (ih : InfoHash) : Bool := ih.v2.isSome

def InfoHash.v2Bytes (ih : InfoHash) : List UInt8 := (ih.v2.getD (Vector.replicate 32 0)).toList

def InfoHash.v1Bytes (ih : InfoHash) : List UInt8 := (ih.v1.getD (Vector.replicate 20 0)).toList

def hexDigit (n : Nat) : Char := "0123456789abcdef".toList.getD n '0'

/-- `lt::aux::to_hex` -/
def toHex (bytes : List UInt8) : CxxString :=
  bytes.flatMap fun b => [hexDigit (b.toNat / 16), hexDigit (b.toNat % 16)]

/-- A libtorrent handle: the torrent object it points to, and the save path libtorrent
was told for that torrent. -/
structure TorrentHandle where
  ref : Nat
  savePath : CxxString
  deriving DecidableEq, Repr

structure SessionConfig where
  savePath : CxxString := "./downloads".toList
  deriving DecidableEq, Repr

structure ServerConfig where
  bindAddress : CxxString := "127.0.0.1".toList
  streamPort : Nat := 0
  maxConcurrentStreams : Int := 4
  deriving DecidableEq, Repr

structure CacheConfig where
  /-- 0 stands for no limit -/
  maxStorageBytes : Int := 0
  deriving DecidableEq, Repr

end SeekServe
