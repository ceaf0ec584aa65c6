/-
# What can go wrong

A fault is a cause with the data that its message shows.  `Fault.kind` sorts the
causes: a caller reacts to the kind, a person reads the message.  What a JSON library
says about a text or a value is in the message as the library words it.
-/

import WeightLink.Files.Path
import WeightLink.Flash.Phase
import WeightLink.Json.Value
import WeightLink.Word

namespace WeightLink

/-- A buffer that a caller has to bring along. -/
inductive Operand where
  /-- The block to look at. -/
  | block
  /-- The block to decode, or the room for its weights. -/
  | decoding
  /-- The same for the peripheral. -/
  | driving
  /-- The weights to encode. -/
  | weights
  /-- The bytes to program. -/
  | image
  /-- The values of a tensor. -/
  | tensor
  /-- The room for bytes read from memory. -/
  | memoryBytes
  /-- The room for bytes read over the flash link. -/
  | flashBytes
  deriving DecidableEq, Repr

/-- Why an operation was refused or gave up. -/
inductive Fault where
  /-- A buffer was not brought along. -/
  | missing (operand : Operand)
  -- blocks
  /-- The dialect of a block to be packed has more than four bits. -/
  | packedDialect
  /-- The exponent of a block to be packed has more than five bits. -/
  | packedExponent
  /-- There is no dialect to list the magnitudes of. -/
  | magnitudesDialect
  /-- There is no exponent to list the magnitudes under. -/
  | magnitudesExponent
  -- flash device, engine and window
  /-- The device would be empty, or larger than 24 address bits reach. -/
  | deviceCapacity (bytes : Nat)
  /-- The bytes to program do not lie inside the device. -/
  | imageBounds (offset count capacity : Nat)
  /-- The window would be empty, or larger than 24 address bits reach. -/
  | windowSize (bytes : Nat)
  /-- A range of bytes does not lie inside the window. -/
  | flashBounds (offset count window : Nat)
  /-- A range of bytes does not lie inside the blob in memory. -/
  | memoryBounds (offset count size : Nat)
  /-- The budget of a read was spent without an answer. -/
  | readTimeout (address : UInt32) (cycles : Nat) (phase : Flash.Phase)
  /-- The budget of a write was spent before it was accepted. -/
  | writeTimeout (address : UInt32)
  -- blobs
  /-- A tensor was asked for, but the magic was not accepted or not looked at yet. -/
  | streamMagic (magic : UInt32)
  /-- The source ends inside the first bytes of a record. -/
  | recordHeader (position size : Nat)
  /-- A record claims more elements than its blocks have. -/
  | recordElements (position : Nat) (elements blocks : UInt32)
  /-- More elements are asked for than the blocks of a record have. -/
  | requestedElements (requested : UInt32) (position : Nat) (blocks : UInt32)
  /-- The source ends inside the blocks of a record. -/
  | recordBlocks (blocks : UInt32) (position size : Nat)
  /-- A scratch buffer is to have more elements than any buffer. -/
  | bufferLength
  /-- There is no memory for a scratch buffer. -/
  | bufferMemory
  /-- The blocks of a record do not fit the scratch buffer. -/
  | scratchCapacity (blocks : UInt32) (elements capacity : Nat)
  /-- A tensor has more values than 32 bits count. -/
  | tensorSize
  /-- A record of packed blocks would claim more elements than they have. -/
  | elementCount
  -- configurations
  /-- The file of the configuration cannot be opened. -/
  | configOpen (path : String)
  /-- The library reads no value from the text of the configuration. -/
  | jsonSyntax (message : String)
  /-- A text is asked for where there is another value. -/
  | jsonText (value : Json)
  /-- A key is looked up in a value that is no object. -/
  | jsonObject (value : Json)
  /-- The configuration is not an object. -/
  | configTopLevel
  /-- There is no backing with this name. -/
  | unknownBacking (name : String)
  /-- There is no decoder with this name. -/
  | unknownDecoder (name : String)
  /-- There is no decoder with this number. -/
  | decoderNumber
  /-- A setting is not a non-negative integer. -/
  | notUnsigned (name : String) (value : Json)
  /-- A setting is too large. -/
  | unsignedBounds (name : String) (value : Nat)
  /-- A setting is not a truth value. -/
  | notBoolean (name : String)
  /-- The scratch buffer would be empty. -/
  | scratchZero
  /-- The settings of the flash link are not an object. -/
  | flashObject
  /-- The flash offset has more than 24 bits. -/
  | flashOffset
  /-- The configured window would be empty, or larger than 24 address bits reach. -/
  | flashWindow
  /-- The checks are missing, or not an array. -/
  | checksArray
  /-- The element counts of a check are missing, or not an array. -/
  | tensorsArray (check : String)
  /-- An expected hash written as a number does not have 32 bits. -/
  | hashBounds
  /-- An expected hash is neither an integer nor a text. -/
  | hashKind
  /-- An expected hash written as a text has no digits, or too many. -/
  | hashText (text : String)
  /-- An expected hash written as a text goes on behind its digits, or has more than 32
  bits. -/
  | hashTail (text : String)
  -- verification
  /-- The blob does not fit the window. -/
  | blobOverWindow (blob window : Nat)
  /-- The window reaches past the address space of the device. -/
  | windowOverDevice
  /-- The blob to verify has neither of the two magics. -/
  | blobMagic (magic : UInt32)
  -- files
  /-- The file of the blob cannot be opened. -/
  | blobOpen (path : String)
  /-- A directory was found where a file was expected. -/
  | directoryRead
  /-- The file to save a blob to cannot be opened. -/
  | blobSave (path : String)
  /-- The directories on the way to the report cannot all be made. -/
  | reportParents (obstacle : Path.Obstacle) (parent : String)
  /-- The file to write the report to cannot be opened. -/
  | reportOpen (path : String)
  deriving Repr

namespace Fault

/-- The sorts of fault that a caller tells apart. -/
inductive Kind where
  /-- An argument or a setting that makes no sense. -/
  | argument
  /-- A position or number outside its bounds. -/
  | bounds
  /-- A blob that is not well formed. -/
  | format
  /-- A tensor that does not fit the scratch buffer. -/
  | overrun
  /-- A bus call without an answer. -/
  | hang
  /-- A file that cannot be used. -/
  | system
  /-- A text or a value that the JSON library refuses. -/
  | library
  /-- A buffer that cannot be had. -/
  | memory
  deriving DecidableEq, Repr

/-- The sort of a fault. -/
def kind : Fault → Kind
  | packedDialect | packedExponent | magnitudesDialect | magnitudesExponent
  | imageBounds .. | flashBounds .. | memoryBounds .. | tensorSize => .bounds
  | readTimeout .. | writeTimeout .. => .hang
  | streamMagic .. | recordHeader .. | recordElements .. | requestedElements ..
  | recordBlocks .. | blobMagic .. => .format
  | scratchCapacity .. => .overrun
  | configOpen .. | blobOpen .. | directoryRead | blobSave .. | reportParents ..
  | reportOpen .. => .system
  | jsonSyntax .. | jsonText .. | jsonObject .. => .library
  | bufferLength | bufferMemory => .memory
  | _ => .argument

/-- The message that names what was not brought along. -/
def missingText : Operand → String
  | .block => "ParseMeta: null block"
  | .decoding => "DecodeBlock: null pointer"
  | .driving => "DriveBlock: null pointer"
  | .weights => "EncodeBlock: null input"
  | .image => "SpiFlashModel::LoadImage: null data"
  | .tensor => "BlobWriter::AddTensor: null data with n>0"
  | .memoryBytes => "MemoryWeightSource: null dst"
  | .flashBytes => "FlashWeightSource: null dst"

/-- The full wording of a fault. -/
def wording (library : Json.Library) : Fault → String
  | missing operand => missingText operand
  | packedDialect => "PackBlock: dialect_id > 15"
  | packedExponent => "PackBlock: shared_exp > 31"
  | magnitudesDialect => "RepresentableMagnitudes: dialect_id"
  | magnitudesExponent => "RepresentableMagnitudes: shared_exp"
  | deviceCapacity bytes => s!"SpiFlashModel: capacity must be 1..16 MiB, got {bytes}"
  | imageBounds offset count capacity =>
    s!"SpiFlashModel::LoadImage: image [{offset}, +{count}) exceeds capacity {capacity}"
  | windowSize bytes => s!"FlashWeightSource: window must be 1..16 MiB, got {bytes}"
  | flashBounds offset count window =>
    s!"FlashWeightSource: read [{offset}, +{count}) past window {window}"
  | memoryBounds offset count size =>
    s!"MemoryWeightSource: read [{offset}, +{count}) past size {size}"
  | readTimeout address cycles phase =>
    "FlashClock::ReadWord: no response for bus address " ++ Word.hex address
      ++ s!" after {cycles} cycles (engine state " ++ phase.name ++ ")"
  | writeTimeout address =>
    "FlashClock::WriteWord: write to " ++ Word.hex address ++ " never accepted"
  | streamMagic magic =>
    "WeightStream: blob magic check failed (" ++ Word.hex magic ++ ")"
  | recordHeader position size =>
    s!"WeightStream: tensor header at {position} runs past end of source ({size} bytes)"
  | recordElements position elements blocks =>
    s!"WeightStream: record at {position} claims {elements} elements in {blocks} blocks"
  | requestedElements requested position blocks =>
    s!"WeightStream: consumer expects {requested} elements, record at {position} holds "
      ++ s!"{blocks} blocks"
  | recordBlocks blocks position size =>
    s!"WeightStream: {blocks} blocks at {position} run past end of source ({size} bytes)"
  | bufferLength => "cannot create std::vector larger than max_size()"
  | bufferMemory => "std::bad_alloc"
  | scratchCapacity blocks elements capacity =>
    s!"WeightStream: {blocks} blocks ({elements} elements) exceed scratch capacity {capacity}"
  | tensorSize => "BlobWriter::AddTensor: tensor too large"
  | elementCount => "BlobWriter::AddEncodedBlocks: element_count exceeds block capacity"
  | configOpen path => "ParseConfig: cannot open json file: " ++ path
  | jsonSyntax message => message
  | jsonText value => library.notText value
  | jsonObject value => library.notObject value
  | configTopLevel => "ParseConfig: top level must be an object"
  | unknownBacking name => "ParseConfig: unknown backing '" ++ name ++ "'"
  | unknownDecoder name => "ParseConfig: unknown decoder '" ++ name ++ "'"
  | decoderNumber => "MakeDecoder: unknown decoder kind"
  | notUnsigned name value =>
    "ParseConfig: " ++ name ++ " must be a non-negative integer, got "
      ++ library.text value
  | unsignedBounds name value => "ParseConfig: " ++ name ++ s!" out of range: {value}"
  | notBoolean name => "ParseConfig: " ++ name ++ " must be true or false"
  | scratchZero => "ParseConfig: scratch_capacity must be > 0"
  | flashObject => "ParseConfig: 'flash' must be an object"
  | flashOffset => "ParseConfig: flash.offset does not fit 24 bits"
  | flashWindow => "ParseConfig: flash.window_bytes must be 1..16 MiB"
  | checksArray => "ParseConfig: missing 'checks' array"
  | tensorsArray check => "ParseConfig: check '" ++ check ++ "' missing 'tensors' array"
  | hashBounds => "ParseConfig: expected_hash out of 32-bit range"
  | hashKind => "ParseConfig: expected_hash must be a number or a hex string"
  | hashText text => "ParseConfig: expected_hash is not a number: '" ++ text ++ "'"
  | hashTail text => "ParseConfig: bad expected_hash '" ++ text ++ "'"
  | blobOverWindow blob window =>
    s!"RunVerification: blob ({blob} bytes) larger than flash window ({window} bytes)"
  | windowOverDevice =>
    "RunVerification: flash.offset + window_bytes exceeds the 24-bit flash space"
  | blobMagic magic => "RunVerification: blob magic check failed (" ++ Word.hex magic ++ ")"
  | blobOpen path => "cannot open bin file: " ++ path
  | directoryRead => "basic_filebuf::underflow error reading the file: Is a directory"
  | blobSave path => "BlobWriter: cannot open output file: " ++ path
  | reportParents obstacle parent =>
    "filesystem error: cannot create directories: " ++ obstacle.text ++ " [" ++ parent ++ "]"
  | reportOpen path => "WriteVerifyCsv: failed to open " ++ path

/-- The message of a fault.  A name taken from a configuration may hold a NUL; the
message ends in front of the first one. -/
def message (library : Json.Library) (f : Fault) : String := terminated (f.wording library)

end Fault
end WeightLink
