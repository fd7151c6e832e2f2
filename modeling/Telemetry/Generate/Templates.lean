import Telemetry.Template.Basic

/-!
# Templates of generated modules

The texts of the modules that are generated for messages, enumerations and dialects, with places
for what differs between them.
-/

namespace Telemetry.Generate

/-- The module of a message: its struct with an encoder and a decoder. -/
def messageTemplate : Template :=
  [.text "//! ", .attribute "name", .text " (id ", .attribute "id", .text ") from dialect `",
    .attribute "dialect", .text "`.\n",
    .each "doc"
      [.text "//!\n",
        .text "//! ", .attribute "line", .text "\n"],
    .text "\n",
    .text "#![allow(unused_mut, unused_variables, unused_imports)]\n",
    .text "\n",
    .text "use ", .attribute "runtime", .text "::codec::CodecError;\n",
    .text "use ", .attribute "runtime", .text "::frame::\x7bFrameVersion, Packet\x7d;\n",
    .text "use ", .attribute "runtime", .text "::payload::\x7bself, Payload\x7d;\n",
    .text "use super::ENDIANNESS;\n",
    .text "\n",
    .text "#[derive(Debug, Clone, PartialEq)]\n",
    .text "pub struct ", .attribute "struct_name", .text " \x7b\n",
    .each "fields"
      [.attribute "doc", .text "    pub ", .attribute "ident", .text ": ",
        .attribute "rust_type", .text ",\n"],
    .text "\x7d\n",
    .text "\n",
    .text "impl Default for ", .attribute "struct_name", .text " \x7b\n",
    .text "    fn default() -> Self \x7b\n",
    .text "        ", .attribute "struct_name", .text " \x7b\n",
    .each "fields"
      [.text "            ", .attribute "ident", .text ": ", .attribute "zero", .text ",\n"],
    .text "        \x7d\n",
    .text "    \x7d\n",
    .text "\x7d\n",
    .text "\n",
    .text "impl ", .attribute "struct_name", .text " \x7b\n",
    .text "    pub const ID: u32 = ", .attribute "id", .text ";\n",
    .text "    pub const NAME: &'static str = \"", .attribute "name", .text "\";\n",
    .text "    pub const CRC_EXTRA: u8 = ", .attribute "crc_extra", .text ";\n",
    .text "    /// Payload length of a legacy frame.\n",
    .text "    pub const MIN_LEN: usize = ", .attribute "min_len", .text ";\n",
    .text "    /// Payload length of an extended frame.\n",
    .text "    pub const LEN: usize = ", .attribute "len", .text ";\n",
    .text "\n",
    .text "    /// Encode into an unrouted packet. Legacy frames carry base fields only.\n",
    .text "    pub fn pack(&self, version: FrameVersion) -> Packet \x7b\n",
    .text "        let mut p = Payload::with_capacity(Self::LEN, ENDIANNESS);\n",
    .each "encode_base" [.text "        ", .attribute "line", .text "\n"],
    .each "extensions"
      [.text "        if version == FrameVersion::Extended \x7b\n",
        .each "encode_ext" [.text "            ", .attribute "line", .text "\n"],
        .text "        \x7d\n"],
    .text "        Packet::new(version, Self::ID, p.into_bytes())\n",
    .text "    \x7d\n",
    .text "\n",
    .text "    /// Decode a payload. Missing trailing bytes of an extended ",
    .text "payload read as zero.\n",
    .text "    pub fn unpack(bytes: &[u8], version: FrameVersion) -> Result<Self, ",
    .text "CodecError> \x7b\n",
    .text "        let mut p = Payload::reader(bytes, ENDIANNESS, version);\n",
    .text "        let mut msg = Self::default();\n",
    .each "decode_base" [.text "        ", .attribute "line", .text "\n"],
    .each "extensions"
      [.text "        if version == FrameVersion::Extended \x7b\n",
        .each "decode_ext" [.text "            ", .attribute "line", .text "\n"],
        .text "        \x7d\n"],
    .text "        Ok(msg)\n",
    .text "    \x7d\n",
    .each "texts"
      [.text "\n",
        .text "    /// `", .attribute "field", .text "` up to its first zero byte.\n",
        .text "    pub fn ", .attribute "getter", .text "(&self) -> String \x7b\n",
        .text "        payload::text_of(&self.", .attribute "ident", .text ")\n",
        .text "    \x7d\n",
        .text "\n",
        .text "    /// Store `text` in `", .attribute "field", .text "`, truncated to ",
        .attribute "capacity", .text " bytes and zero-padded.\n",
        .text "    pub fn ", .attribute "setter", .text "(&mut self, text: &str) \x7b\n",
        .text "        payload::fill_text(&mut self.", .attribute "ident", .text ", text);\n",
        .text "    \x7d\n"],
    .text "\x7d\n"]

/-- The module of an enumeration: its values and their names. -/
def enumTemplate : Template :=
  [.text "//! ", .attribute "name", .attribute "summary", .text "\n",
    .text "\n",
    .each "entries"
      [.attribute "doc", .text "pub const ", .attribute "ident", .text ": u64 = ",
        .attribute "value", .text ";\n"],
    .text "\n",
    .text "/// (name, value) of every entry, in declaration order.\n",
    .text "pub const ENTRIES: &[(&str, u64)] = &[\n",
    .each "entries"
      [.text "    (\"", .attribute "name", .text "\", ", .attribute "value", .text "),\n"],
    .text "];\n",
    .text "\n",
    .text "pub fn name_of(value: u64) -> Option<&'static str> \x7b\n",
    .text "    ENTRIES.iter().find(|(_, v)| *v == value).map(|(n, _)| *n)\n",
    .text "\x7d\n"]

/-- The module of a dialect: its modules, its tables and a type of all its messages. -/
def dialectTemplate : Template :=
  [.text "//! Dialect `", .attribute "name", .text "`.\n",
    .text "\n",
    .text "#![allow(unused_imports)]\n",
    .text "\n",
    .text "use ", .attribute "runtime", .text "::codec::\x7bCodecError, Endianness\x7d;\n",
    .text "use ", .attribute "runtime", .text "::crc::FingerprintTable;\n",
    .text "use ", .attribute "runtime", .text "::frame::\x7bFrameVersion, Packet\x7d;\n",
    .text "\n",
    .each "modules" [.text "pub mod ", .attribute "module", .text ";\n"],
    .text "\n",
    .text "pub const NAME: &str = \"", .attribute "name", .text "\";\n",
    .text "pub const VERSION: Option<u8> = ", .attribute "version", .text ";\n",
    .text "pub const ENDIANNESS: Endianness = Endianness::", .attribute "endianness",
    .text ";\n",
    .text "pub const CRC_EXTRA_ENABLED: bool = ", .attribute "crc_extra", .text ";\n",
    .text "\n",
    .text "/// (message id, fingerprint), ascending by id, includes merged.\n",
    .text "pub const MESSAGE_CRCS: &[(u32, u8)] = &[\n",
    .each "rows"
      [.text "    (", .attribute "id", .text ", ", .attribute "fingerprint", .text "),\n"],
    .text "];\n",
    .text "\n",
    .text "/// (message id, legacy payload length, extended payload length), ascending by id.\n",
    .text "pub const MESSAGE_LENGTHS: &[(u32, usize, usize)] = &[\n",
    .each "rows"
      [.text "    (", .attribute "id", .text ", ", .attribute "min_len", .text ", ",
        .attribute "len", .text "),\n"],
    .text "];\n",
    .text "\n",
    .text "pub fn fingerprints() -> FingerprintTable \x7b\n",
    .text "    MESSAGE_CRCS.iter().copied().collect()\n",
    .text "\x7d\n",
    .each "dispatch"
      [.text "\n",
        .text "#[derive(Debug, Clone, PartialEq)]\n",
        .text "pub enum Message \x7b\n",
        .each "rows"
          [.text "    ", .attribute "variant", .text "(", .attribute "path", .text "),\n"],
        .text "\x7d\n",
        .text "\n",
        .text "impl Message \x7b\n",
        .text "    pub fn id(&self) -> u32 \x7b\n",
        .text "        match self \x7b\n",
        .each "rows"
          [.text "            Message::", .attribute "variant", .text "(_) => ",
            .attribute "id", .text ",\n"],
        .text "        \x7d\n",
        .text "    \x7d\n",
        .text "\n",
        .text "    pub fn pack(&self, version: FrameVersion) -> Packet \x7b\n",
        .text "        match self \x7b\n",
        .each "rows"
          [.text "            Message::", .attribute "variant",
            .text "(m) => m.pack(version),\n"],
        .text "        \x7d\n",
        .text "    \x7d\n",
        .text "\n",
        .text "    /// Decode a packet; an id outside this dialect yields `Ok(None)`.\n",
        .text "    pub fn unpack(packet: &Packet) -> Result<Option<Self>, CodecError> \x7b\n",
        .text "        Ok(Some(match packet.message_id \x7b\n",
        .each "rows"
          [.text "            ", .attribute "id", .text " => Message::", .attribute "variant",
            .text "(", .attribute "path",
            .text "::unpack(&packet.payload, packet.version)?),\n"],
        .text "            _ => return Ok(None),\n",
        .text "        \x7d))\n",
        .text "    \x7d\n",
        .text "\x7d\n"]]

/-- The module of what all dialects share: framing constants and a table of all messages. -/
def framingTemplate : Template :=
  [.text "//! Framing constants and the fingerprint table shared by every generated dialect.\n",
    .text "\n",
    .text "#![allow(unused_imports, dead_code)]\n",
    .text "\n",
    .text "use ", .attribute "runtime", .text "::crc::FingerprintTable;\n",
    .text "\n",
    .text "pub use ", .attribute "runtime",
    .text "::frame::\x7bFrameError, FrameVersion, Packet\x7d;\n",
    .text "pub use ", .attribute "runtime", .text "::payload::Payload;\n",
    .text "\n",
    .text "pub const LEGACY_STX: u8 = ", .attribute "legacy_stx", .text ";\n",
    .text "pub const EXTENDED_STX: u8 = ", .attribute "extended_stx", .text ";\n",
    .text "pub const LEGACY_HEADER_LEN: usize = ", .attribute "legacy_header_len", .text ";\n",
    .text "pub const EXTENDED_HEADER_LEN: usize = ", .attribute "extended_header_len",
    .text ";\n",
    .text "pub const CHECKSUM_LEN: usize = ", .attribute "checksum_len", .text ";\n",
    .text "pub const SIGNATURE_LEN: usize = ", .attribute "signature_len", .text ";\n",
    .text "pub const INCOMPAT_FLAG_SIGNED: u8 = ", .attribute "signed_flag", .text ";\n",
    .text "\n",
    .text "/// (message id, dialect, message name, fingerprint) for every message ",
    .text "of the run, ascending by id.\n",
    .text "pub const MESSAGES: &[(u32, &str, &str, u8)] = &[\n",
    .each "rows"
      [.text "    (", .attribute "id", .text ", \"", .attribute "dialect", .text "\", \"",
        .attribute "name", .text "\", ", .attribute "fingerprint", .text "),\n"],
    .text "];\n",
    .text "\n",
    .text "pub fn fingerprints() -> FingerprintTable \x7b\n",
    .text "    MESSAGES.iter().map(|&(id, _, _, fp)| (id, fp)).collect()\n",
    .text "\x7d\n"]

/-- The module that holds all others. -/
def rootTemplate : Template :=
  [.text "//! Generated message definitions.\n",
    .text "\n",
    .text "pub mod framing;\n",
    .each "dialects" [.text "pub mod ", .attribute "module", .text ";\n"]]

end Telemetry.Generate
