import Libtg.Lib.SqlTable

/-!
# What is saved (`tg/user.c`, `tg/chat.c`, `tg/channel.c`, `tg/dialogs.c`, `tg/updates.c`)

Users, chats, channels, dialogs and messages are saved by a text of two statements: a row is made
for the key if there is none, and its columns are set. The lists of the columns are the ones of the
header files. Texts stand between quotes as they are.
-/

namespace Libtg.Database

open Sql

/-- A text that ends at its first NUL. -/
structure CString where
  bytes : Text
  noNul : 0 ∉ bytes

/-- How a field is printed. -/
inductive Printer where
  | arg | str | spa | sps
  deriving DecidableEq

/-- The C type of a field. -/
inductive FieldType where
  | bool | uint32 | uint64 | chars
  deriving DecidableEq

/-- `TG_USER_ARG(t, n, type, name, ifmin)` and its like. The others have no `ifmin`. -/
structure Arg where
  printer : Printer
  t : FieldType
  n : String
  type : String
  name : String
  ifmin : Nat
  deriving DecidableEq

/-- `TG_USER_ARGS`. -/
def tgUserArgs : List Arg :=
  [⟨.arg, .bool, "self_", "INT", "self", 0⟩, ⟨.arg, .bool, "contact_", "INT", "contact", 1⟩,
    ⟨.arg, .bool, "mutual_contact_", "INT", "mutual_contact", 1⟩,
    ⟨.arg, .bool, "deleted_", "INT", "deleted", 0⟩, ⟨.arg, .bool, "bot_", "INT", "bot", 0⟩,
    ⟨.arg, .bool, "bot_chat_history_", "INT", "bot_chat_history", 0⟩,
    ⟨.arg, .bool, "bot_nochats_", "INT", "bot_nochats", 0⟩,
    ⟨.arg, .bool, "verified_", "INT", "verified", 0⟩,
    ⟨.arg, .bool, "restricted_", "INT", "restricted", 0⟩, ⟨.arg, .bool, "min_", "INT", "min", 0⟩,
    ⟨.arg, .bool, "bot_inline_geo_", "INT", "bot_inline_geo", 0⟩,
    ⟨.arg, .bool, "support_", "INT", "support", 0⟩, ⟨.arg, .bool, "scam_", "INT", "scam", 0⟩,
    ⟨.arg, .bool, "apply_min_photo_", "INT", "apply_min_photo", 0⟩,
    ⟨.arg, .bool, "fake_", "INT", "fake", 0⟩,
    ⟨.arg, .bool, "bot_attach_menu_", "INT", "bot_attach_menu", 0⟩,
    ⟨.arg, .bool, "premium_", "INT", "premium", 0⟩,
    ⟨.arg, .bool, "attach_menu_enabled_", "INT", "attach_menu_enabled", 0⟩,
    ⟨.arg, .bool, "bot_can_edit_", "INT", "bot_can_edit", 0⟩,
    ⟨.arg, .bool, "close_friend_", "INT", "close_friend", 1⟩,
    ⟨.arg, .bool, "stories_hidden_", "INT", "stories_hidden", 1⟩,
    ⟨.arg, .bool, "stories_unavailable_", "INT", "stories_unavailable", 0⟩,
    ⟨.arg, .bool, "contact_require_premium_", "INT", "contact_require_premium", 0⟩,
    ⟨.arg, .bool, "bot_business_", "INT", "bot_business", 0⟩,
    ⟨.arg, .bool, "bot_has_main_app_", "INT", "bot_has_main_app", 0⟩,
    ⟨.arg, .uint64, "id_", "INT", "user_id", 0⟩,
    ⟨.arg, .uint64, "access_hash_", "INT", "access_hash", 2⟩,
    ⟨.str, .chars, "first_name_", "TEXT", "first_name", 2⟩,
    ⟨.str, .chars, "last_name_", "TEXT", "last_name", 2⟩,
    ⟨.str, .chars, "username_", "TEXT", "username", 2⟩,
    ⟨.str, .chars, "phone_", "TEXT", "phone", 2⟩,
    ⟨.spa, .bool, "photo_has_video", "INT", "photo_has_video", 2⟩,
    ⟨.spa, .bool, "photo_personal", "INT", "photo_personal", 2⟩,
    ⟨.spa, .uint64, "photo_id", "INT", "photo_id", 2⟩,
    ⟨.sps, .chars, "photo_stripped_thumb", "INT", "photo_stripped_thumb", 2⟩,
    ⟨.spa, .uint32, "photo_dc_id", "INT", "photo_dc_id", 2⟩,
    ⟨.spa, .uint32, "user_satus", "INT", "user_status", 2⟩,
    ⟨.spa, .uint32, "user_satus_time", "INT", "user_status_time", 2⟩,
    ⟨.spa, .bool, "user_satus_byme", "INT", "user_status_byme", 2⟩,
    ⟨.arg, .bool, "bot_info_version_", "INT", "bot_info_version", 0⟩,
    ⟨.str, .chars, "bot_inline_placeholder_", "INT", "bot_inline_placeholder", 0⟩,
    ⟨.str, .chars, "lang_code_", "INT", "lang_code", 0⟩,
    ⟨.arg, .bool, "stories_max_id_", "INT", "stories_max_id", 1⟩,
    ⟨.spa, .uint32, "color", "INT", "color", 0⟩,
    ⟨.spa, .uint32, "profile_color", "INT", "profile_color", 0⟩,
    ⟨.arg, .uint32, "bot_active_users_", "INT", "bot_active_users", 0⟩]

/-- `TG_CHAT_ARGS`. -/
def tgChatArgs : List Arg :=
  [⟨.arg, .bool, "creator_", "INT", "creator", 0⟩, ⟨.arg, .bool, "left_", "INT", "left", 0⟩,
    ⟨.arg, .bool, "deactivated_", "INT", "deactivated", 0⟩,
    ⟨.arg, .bool, "call_active_", "INT", "call_active", 0⟩,
    ⟨.arg, .bool, "call_not_empty_", "INT", "call_not_empty", 0⟩,
    ⟨.arg, .bool, "noforwards_", "INT", "call_not_empty", 0⟩,
    ⟨.arg, .uint64, "id_", "INT", "chat_id", 0⟩, ⟨.str, .chars, "title_", "TEXT", "title", 0⟩,
    ⟨.spa, .bool, "photo_has_video", "INT", "photo_has_video", 0⟩,
    ⟨.spa, .uint64, "photo_id", "INT", "photo_id", 0⟩,
    ⟨.sps, .chars, "photo_stripped_thumb", "TEXT", "photo_stripped_thumb", 0⟩,
    ⟨.spa, .uint32, "photo_dc_id", "INT", "photo_dc_id", 0⟩,
    ⟨.arg, .uint32, "participants_count_", "INT", "participants_count", 0⟩,
    ⟨.arg, .uint32, "date_", "INT", "date", 0⟩, ⟨.arg, .uint32, "version_", "INT", "version", 0⟩,
    ⟨.spa, .uint64, "migrated_to_channel_id", "INT", "migrated_to_channel_id", 0⟩,
    ⟨.spa, .uint64, "migrated_to_access_hash", "INT", "migrated_to_access_hash", 0⟩,
    ⟨.spa, .uint64, "migrated_to_channel_access_hash", "INT", "migrated_to_channel_access_hash", 0⟩,
    ⟨.spa, .bool, "chat_admin_rights_change_info", "INT", "chat_admin_rights_change_info", 0⟩,
    ⟨.spa, .bool, "chat_admin_rights_post_messages", "INT", "chat_admin_rights_post_messages", 0⟩,
    ⟨.spa, .bool, "chat_admin_rights_edit_messages", "INT", "chat_admin_rights_edit_messages", 0⟩,
    ⟨.spa, .bool, "chat_admin_rights_delete_messages",
      "INT", "chat_admin_rights_delete_messages", 0⟩,
    ⟨.spa, .bool, "chat_admin_rights_ban_users", "INT", "chat_admin_rights_ban_users", 0⟩,
    ⟨.spa, .bool, "chat_admin_rights_invite_users", "INT", "chat_admin_rights_invite_users", 0⟩,
    ⟨.spa, .bool, "chat_admin_rights_pin_messages", "INT", "chat_admin_rights_pin_messages", 0⟩,
    ⟨.spa, .bool, "chat_admin_rights_add_admins", "INT", "chat_admin_rights_add_admins", 0⟩,
    ⟨.spa, .bool, "chat_admin_rights_anonymous", "INT", "chat_admin_rights_anonymous", 0⟩,
    ⟨.spa, .bool, "chat_admin_rights_manage_call", "INT", "chat_admin_rights_manage_call", 0⟩,
    ⟨.spa, .bool, "chat_admin_rights_other", "INT", "chat_admin_rights_other", 0⟩,
    ⟨.spa, .bool, "chat_admin_rights_manage_topics", "INT", "chat_admin_rights_manage_topics", 0⟩,
    ⟨.spa, .bool, "chat_admin_rights_post_stories", "INT", "chat_admin_rights_post_stories", 0⟩,
    ⟨.spa, .bool, "chat_admin_rights_edit_stories", "INT", "chat_admin_rights_edit_stories", 0⟩,
    ⟨.spa, .bool, "chat_admin_rights_delete_stories", "INT", "chat_admin_rights_delete_stories", 0⟩,
    ⟨.spa, .bool, "chat_default_banned_rights_view_messages",
      "INT", "chat_default_banned_rights_view_messages", 0⟩,
    ⟨.spa, .bool, "chat_default_banned_rights_send_messages",
      "INT", "chat_default_banned_rights_send_messages", 0⟩,
    ⟨.spa, .bool, "chat_default_banned_rights_send_media",
      "INT", "chat_default_banned_rights_send_media", 0⟩,
    ⟨.spa, .bool, "chat_default_banned_rights_send_stickers",
      "INT", "chat_default_banned_rights_send_stickers", 0⟩,
    ⟨.spa, .bool, "chat_default_banned_rights_send_gifs",
      "INT", "chat_default_banned_rights_send_gifs", 0⟩,
    ⟨.spa, .bool, "chat_default_banned_rights_send_games",
      "INT", "chat_default_banned_rights_send_games", 0⟩,
    ⟨.spa, .bool, "chat_default_banned_rights_send_inline",
      "INT", "chat_default_banned_rights_send_inline", 0⟩,
    ⟨.spa, .bool, "chat_default_banned_rights_embed_links",
      "INT", "chat_default_banned_rights_embed_links", 0⟩,
    ⟨.spa, .bool, "chat_default_banned_rights_send_polls",
      "INT", "chat_default_banned_rights_send_polls", 0⟩,
    ⟨.spa, .bool, "chat_default_banned_rights_change_info",
      "INT", "chat_default_banned_rights_change_info", 0⟩,
    ⟨.spa, .bool, "chat_default_banned_rights_invite_users",
      "INT", "chat_default_banned_rights_invite_users", 0⟩,
    ⟨.spa, .bool, "chat_default_banned_rights_pin_messages",
      "INT", "chat_default_banned_rights_pin_messages", 0⟩,
    ⟨.spa, .bool, "chat_default_banned_rights_manage_topics",
      "INT", "chat_default_banned_rights_manage_topics", 0⟩,
    ⟨.spa, .bool, "chat_default_banned_rights_send_photos",
      "INT", "chat_default_banned_rights_send_photos", 0⟩,
    ⟨.spa, .bool, "chat_default_banned_rights_send_videos",
      "INT", "chat_default_banned_rights_send_videos", 0⟩,
    ⟨.spa, .bool, "chat_default_banned_rights_send_roundvideos",
      "INT", "chat_default_banned_rights_send_roundvideos", 0⟩,
    ⟨.spa, .bool, "chat_default_banned_rights_send_audios",
      "INT", "chat_default_banned_rights_send_audios", 0⟩,
    ⟨.spa, .bool, "chat_default_banned_rights_send_voices",
      "INT", "chat_default_banned_rights_send_voices", 0⟩,
    ⟨.spa, .bool, "chat_default_banned_rights_send_docs",
      "INT", "chat_default_banned_rights_send_docs", 0⟩,
    ⟨.spa, .bool, "chat_default_banned_rights_send_plain",
      "INT", "chat_default_banned_rights_send_plain", 0⟩,
    ⟨.spa, .uint32, "chat_default_banned_rights_until_date",
      "INT", "chat_default_banned_rights_until_date", 0⟩]

/-- `TG_CHANNEL_ARGS`. -/
def tgChannelArgs : List Arg :=
  [⟨.arg, .bool, "creator_", "INT", "creator", 0⟩, ⟨.arg, .bool, "left_", "INT", "left", 0⟩,
    ⟨.arg, .bool, "broadcast_", "INT", "broadcast", 0⟩,
    ⟨.arg, .bool, "verified_", "INT", "verified", 0⟩,
    ⟨.arg, .bool, "megagroup_", "INT", "megagroup", 0⟩,
    ⟨.arg, .bool, "restricted_", "INT", "restricted", 0⟩,
    ⟨.arg, .bool, "signatures_", "INT", "signatures", 0⟩, ⟨.arg, .bool, "min_", "INT", "min", 0⟩,
    ⟨.arg, .bool, "scam_", "INT", "scam", 0⟩, ⟨.arg, .bool, "has_link_", "INT", "has_link", 0⟩,
    ⟨.arg, .bool, "has_geo_", "INT", "has_geo", 0⟩,
    ⟨.arg, .bool, "slowmode_enabled_", "INT", "slowmode_enabled", 0⟩,
    ⟨.arg, .bool, "call_active_", "INT", "call_active", 0⟩,
    ⟨.arg, .bool, "call_not_empty_", "INT", "call_not_empty", 0⟩,
    ⟨.arg, .bool, "fake_", "INT", "fake", 0⟩, ⟨.arg, .bool, "gigagroup_", "INT", "gigagroup", 0⟩,
    ⟨.arg, .bool, "noforwards_", "INT", "noforwards", 0⟩,
    ⟨.arg, .bool, "join_to_send_", "INT", "join_to_send", 0⟩,
    ⟨.arg, .bool, "join_request_", "INT", "join_request", 0⟩,
    ⟨.arg, .bool, "forum_", "INT", "forum", 0⟩,
    ⟨.arg, .bool, "stories_hidden_", "INT", "stories_hidden", 0⟩,
    ⟨.arg, .bool, "stories_hidden_min_", "INT", "stories_hidden_min", 0⟩,
    ⟨.arg, .bool, "stories_unavailable_", "INT", "stories_unavailable", 0⟩,
    ⟨.arg, .uint64, "id_", "INT", "channel_id", 0⟩,
    ⟨.arg, .uint64, "access_hash_", "INT", "access_hash", 0⟩,
    ⟨.str, .chars, "title_", "TEXT", "title", 0⟩,
    ⟨.str, .chars, "username_", "TEXT", "username", 0⟩,
    ⟨.spa, .bool, "photo_has_video", "INT", "photo_has_video", 0⟩,
    ⟨.spa, .uint64, "photo_id", "INT", "photo_id", 0⟩,
    ⟨.sps, .chars, "photo_stripped_thumb", "TEXT", "photo_stripped_thumb", 0⟩,
    ⟨.spa, .uint32, "photo_dc_id", "INT", "photo_dc_id", 0⟩,
    ⟨.arg, .uint32, "date_", "INT", "date", 0⟩,
    ⟨.arg, .uint32, "participants_count_", "INT", "participants_count", 0⟩,
    ⟨.arg, .uint32, "stories_max_id_", "INT", "stories_max_id", 0⟩,
    ⟨.spa, .bool, "chat_admin_rights_change_info", "INT", "chat_admin_rights_change_info", 0⟩,
    ⟨.spa, .bool, "chat_admin_rights_post_messages", "INT", "chat_admin_rights_post_messages", 0⟩,
    ⟨.spa, .bool, "chat_admin_rights_edit_messages", "INT", "chat_admin_rights_edit_messages", 0⟩,
    ⟨.spa, .bool, "chat_admin_rights_delete_messages",
      "INT", "chat_admin_rights_delete_messages", 0⟩,
    ⟨.spa, .bool, "chat_admin_rights_ban_users", "INT", "chat_admin_rights_ban_users", 0⟩,
    ⟨.spa, .bool, "chat_admin_rights_invite_users", "INT", "chat_admin_rights_invite_users", 0⟩,
    ⟨.spa, .bool, "chat_admin_rights_pin_messages", "INT", "chat_admin_rights_pin_messages", 0⟩,
    ⟨.spa, .bool, "chat_admin_rights_add_admins", "INT", "chat_admin_rights_add_admins", 0⟩,
    ⟨.spa, .bool, "chat_admin_rights_anonymous", "INT", "chat_admin_rights_anonymous", 0⟩,
    ⟨.spa, .bool, "chat_admin_rights_manage_call", "INT", "chat_admin_rights_manage_call", 0⟩,
    ⟨.spa, .bool, "chat_admin_rights_other", "INT", "chat_admin_rights_other", 0⟩,
    ⟨.spa, .bool, "chat_admin_rights_manage_topics", "INT", "chat_admin_rights_manage_topics", 0⟩,
    ⟨.spa, .bool, "chat_admin_rights_post_stories", "INT", "chat_admin_rights_post_stories", 0⟩,
    ⟨.spa, .bool, "chat_admin_rights_edit_stories", "INT", "chat_admin_rights_edit_stories", 0⟩,
    ⟨.spa, .bool, "chat_admin_rights_delete_stories", "INT", "chat_admin_rights_delete_stories", 0⟩,
    ⟨.spa, .bool, "chat_default_banned_rights_view_messages",
      "INT", "chat_default_banned_rights_view_messages", 0⟩,
    ⟨.spa, .bool, "chat_default_banned_rights_send_messages",
      "INT", "chat_default_banned_rights_send_messages", 0⟩,
    ⟨.spa, .bool, "chat_default_banned_rights_send_media",
      "INT", "chat_default_banned_rights_send_media", 0⟩,
    ⟨.spa, .bool, "chat_default_banned_rights_send_stickers",
      "INT", "chat_default_banned_rights_send_stickers", 0⟩,
    ⟨.spa, .bool, "chat_default_banned_rights_send_gifs",
      "INT", "chat_default_banned_rights_send_gifs", 0⟩,
    ⟨.spa, .bool, "chat_default_banned_rights_send_games",
      "INT", "chat_default_banned_rights_send_games", 0⟩,
    ⟨.spa, .bool, "chat_default_banned_rights_send_inline",
      "INT", "chat_default_banned_rights_send_inline", 0⟩,
    ⟨.spa, .bool, "chat_default_banned_rights_embed_links",
      "INT", "chat_default_banned_rights_embed_links", 0⟩,
    ⟨.spa, .bool, "chat_default_banned_rights_send_polls",
      "INT", "chat_default_banned_rights_send_polls", 0⟩,
    ⟨.spa, .bool, "chat_default_banned_rights_change_info",
      "INT", "chat_default_banned_rights_change_info", 0⟩,
    ⟨.spa, .bool, "chat_default_banned_rights_invite_users",
      "INT", "chat_default_banned_rights_invite_users", 0⟩,
    ⟨.spa, .bool, "chat_default_banned_rights_pin_messages",
      "INT", "chat_default_banned_rights_pin_messages", 0⟩,
    ⟨.spa, .bool, "chat_default_banned_rights_manage_topics",
      "INT", "chat_default_banned_rights_manage_topics", 0⟩,
    ⟨.spa, .bool, "chat_default_banned_rights_send_photos",
      "INT", "chat_default_banned_rights_send_photos", 0⟩,
    ⟨.spa, .bool, "chat_default_banned_rights_send_videos",
      "INT", "chat_default_banned_rights_send_videos", 0⟩,
    ⟨.spa, .bool, "chat_default_banned_rights_send_roundvideos",
      "INT", "chat_default_banned_rights_send_roundvideos", 0⟩,
    ⟨.spa, .bool, "chat_default_banned_rights_send_audios",
      "INT", "chat_default_banned_rights_send_audios", 0⟩,
    ⟨.spa, .bool, "chat_default_banned_rights_send_voices",
      "INT", "chat_default_banned_rights_send_voices", 0⟩,
    ⟨.spa, .bool, "chat_default_banned_rights_send_docs",
      "INT", "chat_default_banned_rights_send_docs", 0⟩,
    ⟨.spa, .bool, "chat_default_banned_rights_send_plain",
      "INT", "chat_default_banned_rights_send_plain", 0⟩,
    ⟨.spa, .uint32, "chat_default_banned_rights_until_date",
      "INT", "chat_default_banned_rights_until_date", 0⟩,
    ⟨.spa, .uint32, "color", "INT", "color", 0⟩,
    ⟨.spa, .uint32, "profile_color", "INT", "profile_color", 0⟩]

/-- `TG_DIALOG_ARGS`. -/
def tgDialogArgs : List Arg :=
  [⟨.str, .chars, "name", "TEXT", "name", 0⟩, ⟨.arg, .bool, "pinned", "INT", "pinned", 0⟩,
    ⟨.arg, .bool, "unread_mark", "INT", "unread_mark", 0⟩,
    ⟨.arg, .uint32, "top_message_id", "INT", "top_message_id", 0⟩,
    ⟨.arg, .uint32, "top_message_from_peer_type", "INT", "top_message_from_peer_type", 0⟩,
    ⟨.arg, .uint64, "top_message_from_peer_id", "INT", "top_message_from_peer_id", 0⟩,
    ⟨.arg, .uint32, "top_message_date", "INT", "top_message_date", 0⟩,
    ⟨.str, .chars, "top_message_text", "TEXT", "top_message_text", 0⟩,
    ⟨.arg, .uint32, "read_inbox_max_id", "INT", "read_inbox_max_id", 0⟩,
    ⟨.arg, .uint32, "read_outbox_max_id", "INT", "read_outbox_max_id", 0⟩,
    ⟨.arg, .uint32, "unread_count", "INT", "unread_count", 0⟩,
    ⟨.arg, .uint32, "unread_mentions_count", "INT", "unread_mentions_count", 0⟩,
    ⟨.arg, .uint32, "unread_reactions_count", "INT", "unread_reactions_count", 0⟩,
    ⟨.arg, .uint32, "folder_id", "INT", "folder_id", 0⟩,
    ⟨.arg, .bool, "silent", "INT", "silent", 0⟩,
    ⟨.arg, .uint32, "mute_until", "INT", "mute_until", 0⟩,
    ⟨.arg, .uint32, "peer_type", "INT", "peer_type", 0⟩,
    ⟨.arg, .uint64, "peer_id", "INT", "peer_id", 0⟩,
    ⟨.arg, .uint64, "photo_id", "INT", "photo_id", 0⟩, ⟨.str, .chars, "thumb", "TEXT", "thumb", 0⟩,
    ⟨.arg, .uint64, "access_hash", "INT", "access_hash", 0⟩,
    ⟨.arg, .bool, "broadcast", "INT", "broadcat", 0⟩]

/-- What `message_update` prints. -/
def messageArgs : List Arg :=
  [⟨.str, .chars, "message_", "TEXT", "message", 0⟩, ⟨.arg, .bool, "out_", "INT", "out", 0⟩,
    ⟨.arg, .bool, "mentioned_", "INT", "mentioned", 0⟩,
    ⟨.arg, .bool, "media_unread_", "INT", "media_unread", 0⟩,
    ⟨.arg, .bool, "silent_", "INT", "silent", 0⟩, ⟨.arg, .uint32, "date_", "INT", "date", 0⟩,
    ⟨.arg, .uint32, "ttl_period_", "INT", "ttl_period", 0⟩]

/-! ## The texts -/

/-- The fields of a `tg_user_t` or its like, the numbers as `uint64_t`. -/
structure Record where
  int : String → UInt64
  str : String → Option CString

/-- `"%ld"` of a `uint64_t`. -/
def ld (n : UInt64) : Int := n.toInt64.toInt

/-- `"%d"` of a `uint32_t`. -/
def d (n : UInt64) : Int := n.toUInt32.toInt32.toInt

/-- What is set for a field. The columns of the kind `ifmin` are left out of a `min` user, and a
text is left out if there is none or, unless `empty`, if it is empty. -/
def Arg.assign (empty : Bool) (m : Record) (a : Arg) : Option (Text × Value) :=
  match a.printer with
  | .arg =>
    if m.int "min_" = 0 ∨ a.ifmin ≠ 1 then some (Sql.bytes a.name, .int (ld (m.int a.n))) else none
  | .spa => some (Sql.bytes a.name, .int (ld (m.int a.n)))
  | .str | .sps =>
    (m.str a.n).bind fun s =>
      if empty ∨ s.bytes ≠ [] then some (Sql.bytes a.name, .text s.bytes) else none

/-- The text of the two statements. -/
def saveText (table key : Text) (sel : String) (k : Int) (as : List (Text × Value)) (id : Int32) :
    Text :=
  printInsert table key sel k ++ (Sql.bytes "\n" ++
    printUpdate table as (Sql.bytes "id") id.toInt (printWhere key k (Sql.bytes ";\n")))

/-- The field is printed as a text. -/
def Arg.isText (a : Arg) : Bool := a.printer = .str ∨ a.printer = .sps

/-- A table, the key of a record in it and the columns that are set. The key is not set to anything
else, and no other field goes to the column of a text. -/
structure Store where
  table : String
  key : String
  sel : String
  keyOf : Record → Int
  args : List Arg
  empty : Bool
  table_name : IsName (Sql.bytes table)
  key_name : IsName (Sql.bytes key)
  key_ne : key ≠ "id"
  scan_sel : scan .ready (Sql.bytes sel) = ([.word (Sql.bytes "SELECT")], .ready)
  keyOf_int64 : ∀ m, IsInt64 (keyOf m)
  args_name : ∀ a ∈ args, IsName (Sql.bytes a.name)
  args_type : ∀ a ∈ args, a.type = "INT" ∨ a.type = "TEXT"
  args_key : ∀ a ∈ args, a.name = key → a.isText = false ∧ ∀ m, ld (m.int a.n) = keyOf m
  args_id : ∀ a ∈ args, a.name ≠ "id"
  args_text : ∀ a ∈ args, a.isText → ∀ b ∈ args, b.name = a.name → b = a

def Store.assigns (s : Store) (m : Record) : List (Text × Value) :=
  s.args.filterMap (Arg.assign s.empty m)

def Store.text (s : Store) (id : Int32) (m : Record) : Text :=
  saveText (Sql.bytes s.table) (Sql.bytes s.key) s.sel (s.keyOf m) (s.assigns m) id

theorem ld_int64 (n : UInt64) : IsInt64 (ld n) := by
  have hle := n.toInt64.le_toInt
  have hlt := n.toInt64.toInt_lt
  exact ⟨hle, hlt⟩

theorem ld_inj {p q : UInt64} : ld p = ld q ↔ p = q := by
  rw [ld, ld, Int64.toInt_inj]
  exact ⟨fun h => by simpa using congrArg Int64.toUInt64 h, congrArg _⟩

/-- A number is read as it was printed. -/
theorem ofInt_ld (n : UInt64) : UInt64.ofInt (ld n) = n := by
  have hld : ld n = (n.toNat : Int).bmod (2 ^ 64) := BitVec.toInt_eq_toNat_bmod n.toBitVec
  have hlt : (n.toNat : Int) < (2 ^ 64 : Nat) := Int.ofNat_lt.mpr n.toNat_lt
  have hmod : (n.toNat : Int).bmod (2 ^ 64) % (2 ^ 64 : Nat) = n.toNat :=
    (Int.bmod_emod).trans (Int.emod_eq_of_lt (Int.natCast_nonneg _) hlt)
  rw [Nat.cast_pow, Nat.cast_ofNat] at hmod
  rw [UInt64.ofInt, hld, hmod, Int.toNat_natCast, UInt64.ofNat_toNat]

theorem int32_int64 (n : Int32) : IsInt64 n.toInt := by
  have hle := n.le_toInt
  have hlt := n.toInt_lt
  rw [IsInt64]
  omega

/-- Fields that are not set twice, by their names. -/
theorem args_key_of {key n : String} {args : List Arg}
    (h : ∀ a ∈ args, a.name = key → a.isText = false ∧ a.n = n) (a : Arg) (ha : a ∈ args)
    (hname : a.name = key) :
    a.isText = false ∧ ∀ m : Record, ld (m.int a.n) = ld (m.int n) := by
  obtain ⟨htext, hn⟩ := h a ha hname
  exact ⟨htext, fun m => by rw [hn]⟩

/-- `tg_user_save`. -/
def users : Store where
  table := "users"
  key := "user_id"
  sel := " SELECT  "
  keyOf m := ld (m.int "id_")
  args := tgUserArgs
  empty := false
  table_name := by decide +kernel
  key_name := by decide +kernel
  key_ne := by decide
  scan_sel := by decide
  keyOf_int64 m := ld_int64 _
  args_name := by decide +kernel
  args_type := by decide +kernel
  args_key := args_key_of (by decide +kernel)
  args_id := by decide +kernel
  args_text := by decide +kernel

/-- `tg_chat_save`. -/
def chats : Store where
  table := "chats"
  key := "chat_id"
  sel := " SELECT  "
  keyOf m := ld (m.int "id_")
  args := tgChatArgs
  empty := false
  table_name := by decide +kernel
  key_name := by decide +kernel
  key_ne := by decide
  scan_sel := by decide
  keyOf_int64 m := ld_int64 _
  args_name := by decide +kernel
  args_type := by decide +kernel
  args_key := args_key_of (by decide +kernel)
  args_id := by decide +kernel
  args_text := by decide +kernel

/-- `tg_channel_save`. -/
def channels : Store where
  table := "channels"
  key := "channel_id"
  sel := " SELECT  "
  keyOf m := ld (m.int "id_")
  args := tgChannelArgs
  empty := false
  table_name := by decide +kernel
  key_name := by decide +kernel
  key_ne := by decide
  scan_sel := by decide
  keyOf_int64 m := ld_int64 _
  args_name := by decide +kernel
  args_type := by decide +kernel
  args_key := args_key_of (by decide +kernel)
  args_id := by decide +kernel
  args_text := by decide +kernel

/-- `tg_dialog_to_database`. -/
def dialogs : Store where
  table := "dialogs"
  key := "peer_id"
  sel := " SELECT  "
  keyOf m := ld (m.int "peer_id")
  args := tgDialogArgs
  empty := true
  table_name := by decide +kernel
  key_name := by decide +kernel
  key_ne := by decide
  scan_sel := by decide
  keyOf_int64 m := ld_int64 _
  args_name := by decide +kernel
  args_type := by decide +kernel
  args_key := args_key_of (by decide +kernel)
  args_id := by decide +kernel
  args_text := by decide +kernel

/-- `message_update`. -/
def messages : Store where
  table := "messages"
  key := "msg_id"
  sel := " SELECT "
  keyOf m := d (m.int "id_")
  args := messageArgs
  empty := false
  table_name := by decide +kernel
  key_name := by decide +kernel
  key_ne := by decide
  scan_sel := by decide
  keyOf_int64 m := int32_int64 _
  args_name := by decide +kernel
  args_type := by decide +kernel
  args_key a ha hname :=
    absurd hname ((by decide : ∀ a ∈ messageArgs, a.name ≠ "msg_id") a ha)
  args_id := by decide +kernel
  args_text := by decide +kernel

example : messages.text 7 ⟨fun n => if n = "id_" then 5 else 0,
      fun n => if n = "message_" then some ⟨Sql.bytes "hi", by decide⟩ else none⟩ =
    Sql.bytes ("INSERT INTO 'messages' ('msg_id') SELECT 5 WHERE NOT EXISTS (SELECT 1 FROM "
      ++ "messages WHERE msg_id = 5);\nUPDATE 'messages' SET 'message' = 'hi', 'out' = 0, "
      ++ "'mentioned' = 0, 'media_unread' = 0, 'silent' = 0, 'date' = 0, 'ttl_period' = 0, "
      ++ "id = 7 WHERE msg_id = 5;\n")
    := by decide +kernel

/-! ## How the texts are read -/

variable {A : Affinity} {s : Store} {id : Int32} {m : Record} {db : Db} {t : Table}

/-- What is set, the account last. -/
def Store.sets (s : Store) (id : Int32) (m : Record) : List (Text × Value) :=
  s.assigns m ++ [(Sql.bytes "id", .int id.toInt)]

/-- The statements the text is meant to be. -/
def Store.stmts (s : Store) (id : Int32) (m : Record) : List Stmt :=
  [.insertUnless (Sql.bytes s.table) (Sql.bytes s.key) (s.keyOf m) (Sql.bytes s.table)
      ⟨Sql.bytes s.key, s.keyOf m⟩,
    .update (Sql.bytes s.table) (s.sets id m) (some ⟨Sql.bytes s.key, s.keyOf m⟩)]

/-- No text of the record has a quote in it. -/
def Store.Plain (s : Store) (m : Record) : Prop :=
  ∀ a ∈ s.args, a.isText → ∀ c, m.str a.n = some c → quote ∉ c.bytes

/-- A number is set for a number and a text for a text. -/
theorem assign_eq {a : Arg} {x : Text × Value} {empty : Bool} (h : a.assign empty m = some x) :
    x.1 = Sql.bytes a.name ∧
      ((a.isText = false ∧ x.2 = .int (ld (m.int a.n))) ∨
        a.isText ∧ ∃ c, m.str a.n = some c ∧ x.2 = .text c.bytes) := by
  rw [Arg.assign] at h
  split at h
  · rename_i hp
    split_ifs at h
    cases h
    exact ⟨rfl, .inl ⟨by simp [Arg.isText, hp], rfl⟩⟩
  · rename_i hp
    cases h
    exact ⟨rfl, .inl ⟨by simp [Arg.isText, hp], rfl⟩⟩
  all_goals
    rename_i hp
    obtain ⟨c, hc, hx⟩ := Option.bind_eq_some_iff.mp h
    split_ifs at hx
    cases hx
    exact ⟨rfl, .inr ⟨by simp [Arg.isText, hp], c, hc, rfl⟩⟩

/-- A text is set unless it is empty. -/
theorem assign_text {a : Arg} {c : CString} {empty : Bool} (ha : a.isText) (hc : m.str a.n = some c)
    (hempty : c.bytes ≠ []) : a.assign empty m = some (Sql.bytes a.name, .text c.bytes) := by
  have hp : a.printer = .str ∨ a.printer = .sps := by simpa [Arg.isText] using ha
  rcases hp with hp | hp <;> simp [Arg.assign, hp, hc, hempty]

theorem mem_assigns {x : Text × Value} :
    x ∈ s.assigns m ↔ ∃ a ∈ s.args, a.assign s.empty m = some x := List.mem_filterMap

theorem assigns_quote_notMem : ∀ x ∈ s.assigns m, quote ∉ x.1 := by
  intro x hx
  obtain ⟨a, ha, hassign⟩ := mem_assigns.mp hx
  exact (assign_eq hassign).1 ▸ (s.args_name a ha).quote_not_mem

/-- The assignments can stand as they are exactly if the texts have no quotes. -/
theorem assigns_safe_iff : (∀ x ∈ s.assigns m, x.2.Safe) ↔ s.Plain m := by
  constructor
  · intro h a ha htext c hc
    by_cases hempty : c.bytes = []
    · rw [hempty]
      exact List.not_mem_nil
    · exact h _ (mem_assigns.mpr ⟨a, ha, assign_text htext hc hempty⟩)
  · intro h x hx
    obtain ⟨a, ha, hassign⟩ := mem_assigns.mp hx
    obtain ⟨-, ⟨-, hx⟩ | ⟨htext, c, hc, hx⟩⟩ := assign_eq hassign
    · rw [hx]
      exact ld_int64 _
    · rw [hx]
      exact h a ha htext c hc

theorem stmt_insert (s : Store) (m : Record) (b : Text) :
    stmt (lexFrom .ready
        (printInsert (Sql.bytes s.table) (Sql.bytes s.key) s.sel (s.keyOf m) ++ b)) =
      some (.insertUnless (Sql.bytes s.table) (Sql.bytes s.key) (s.keyOf m) (Sql.bytes s.table)
        ⟨Sql.bytes s.key, s.keyOf m⟩, lexFrom .ready b) :=
  stmt_printInsert s.table_name s.key_name (s.keyOf_int64 m) s.scan_sel b

theorem parse_text_iff : parse (s.text id m) = some (s.stmts id m) ↔ s.Plain m := by
  let r := Sql.bytes "\n" ++ printUpdate (Sql.bytes s.table) (s.assigns m) (Sql.bytes "id") id.toInt
    (printWhere (Sql.bytes s.key) (s.keyOf m) (Sql.bytes ";" ++ Sql.bytes "\n"))
  have hinsert := stmt_insert s m r
  have hline (b : Text) : lexFrom .ready (Sql.bytes "\n" ++ b) = lexFrom .ready b :=
    lexFrom_append (by decide : scan .ready (Sql.bytes "\n") = ([], .ready))
  constructor
  · intro h
    obtain ⟨j, us, hstmt, hrest⟩ := stmts_cons h
    obtain ⟨k, vs, hupdate, -⟩ := stmts_cons hrest
    cases hinsert.symm.trans hstmt
    rw [hline] at hupdate
    refine assigns_safe_iff.mp
      (safe_of_stmt s.table_name assigns_quote_notMem (fun x hx => ?_) hupdate)
    obtain ⟨a, -, hassign⟩ := mem_assigns.mp hx
    obtain ⟨-, ⟨-, hx⟩ | ⟨-, c, -, hx⟩⟩ := assign_eq hassign
    · rw [hx]
      exact .inl (ld_int64 _)
    · exact .inr ⟨_, hx⟩
  · intro h
    refine parse_pair ?_ hinsert ?_
    · have htwo : (lex (Sql.bytes "INSERT INTO")).length = 2 := by decide
      rw [Store.text, saveText, lex, lexFrom_printInsert s.table_name s.key_name s.scan_sel,
        List.length_append, htwo]
      exact Nat.le_add_right 2 _
    · rw [lex, hline]
      exact stmt_printUpdate_where s.table_name (by decide +kernel) s.key_name (int32_int64 _)
        (s.keyOf_int64 m) assigns_quote_notMem (assigns_safe_iff.mpr h) _

end Libtg.Database
