import TdsAdmin.Package.Services

/-!
# What the services are asked

Delivery of a run's values: the shell reads each of the four commands as one command whose words
are the strings the script assembled, and OpenAM decodes the values of the configuration from the
form.

The tenant lookup is the one command that puts a URL with two parameters outside quotes. The `&`
between them is an operator, so the shell sends the lookup without its level into the background
— unless some quote in the configuration or the token hides the `&`, and then what is read is no
longer what was assembled. `Shell.operator_free` settles both at once: the lookup is delivered in
no run. For values without a character that a shell or a form treats specially, the other three
are (`plain_values_delivered`).
-/

set_option autoImplicit false

namespace TdsAdmin
namespace Package

open Shell (IsCommand takeWords skipBlanks)

/-! ## Delivery -/

/-- The members of the password grant, as OpenAM is to read them. -/
def grant (c : Configuration) (userId password : Text) : List (Text × Text) :=
  [("grant_type".toList, "password".toList), ("client_id".toList, "pm".toList),
   ("client_secret".toList, c.openAmClientSecret), ("username".toList, userId),
   ("password".toList, password)]

namespace Run

def ProgManTokenDelivered (r : Run) : Prop :=
  ∃ data, IsCommand (progManTokenUrl r.configuration)
      (oAuthWords ++ [data, "--header".toList, formHeader, oAuthAccessUrl r.configuration]) ∧
    Form.decode data =
      grant r.configuration r.configuration.progManUserId r.configuration.progManPassword

def TestSpecBankTokenDelivered (r : Run) : Prop :=
  ∃ data, IsCommand (testSpecBankTokenUrl r.configuration)
      (oAuthWords ++ [data, oAuthAccessUrl r.configuration, "--header".toList, formHeader]) ∧
    Form.decode data =
      grant r.configuration r.configuration.testSpecBankUserId r.configuration.testSpecBankPassword

def TenantDelivered (r : Run) : Prop :=
  IsCommand (tenantIdUrl r.configuration r.progManAccessToken)
    (tenantWords ++ [programMgmtParams r.progManAccessToken, programMgmtUrl r.configuration])

/-- The insert command from the end of the body on. -/
def InsertDelivered (r : Run) : Prop :=
  IsCommand (insertRest r.session)
    [r.configuration.testSpecBankUri ++ "/rest/testSpecification".toList,
      "--header".toList, testSpecBankParams r.session, "--header".toList,
      "Accept: application/json".toList, "--header".toList,
      "Content-Type: application/json".toList]

/-- **Configured values reach the services unchanged.** -/
def Delivered (r : Run) : Prop :=
  r.ProgManTokenDelivered ∧ r.TenantDelivered ∧ r.TestSpecBankTokenDelivered ∧ r.InsertDelivered

end Run

/-! ## The tenant lookup -/

theorem tenantIdUrl_words (c : Configuration) (t : Option Text) : tenantIdUrl c t =
    tenantWords.flatMap (· ++ [' ']) ++
      ('"' :: (programMgmtParams t ++ '"' :: ' ' :: programMgmtUrl c)) := by
  have hcommand : "curl -s -G --insecure -3 --header ".toList
      = tenantWords.flatMap (· ++ [' ']) := by decide
  have hquoted : quoted (programMgmtParams t) ++ ' ' :: programMgmtUrl c
      = '"' :: (programMgmtParams t ++ '"' :: ' ' :: programMgmtUrl c) := by
    simp [quoted]
  unfold tenantIdUrl
  rewrite [List.append_assoc, hquoted]
  exact congrArg (· ++ ('"' :: (programMgmtParams t ++ '"' :: ' ' :: programMgmtUrl c))) hcommand

theorem amp_mem_programMgmtUrl (c : Configuration) : '&' ∈ programMgmtUrl c := by
  have hamp : '&' ∈ "&type=".toList := by decide
  unfold programMgmtUrl
  exact List.mem_append_left _ (List.mem_append_right _ hamp)

theorem tenant_not_delivered (r : Run) : ¬ r.TenantDelivered := by
  intro h
  obtain ⟨rest, hwords, -⟩ := h
  rw [tenantIdUrl_words, show (tenantWords ++ [programMgmtParams r.progManAccessToken,
    programMgmtUrl r.configuration]).length = tenantWords.length + (1 + 1) from rfl,
    Shell.takeWords_literals (by decide)] at hwords
  obtain ⟨tail, htail, hpair⟩ := Option.map_eq_some_iff.mp hwords
  have hsplit : tail = ([programMgmtParams r.progManAccessToken,
      programMgmtUrl r.configuration], rest) := by
    have hfst := congrArg Prod.fst hpair
    have hsnd := congrArg Prod.snd hpair
    exact Prod.ext (List.append_cancel_left hfst) hsnd
  rw [hsplit] at htail
  exact absurd (Shell.operator_free htail '&' (amp_mem_programMgmtUrl _)) (by decide)

/-! ## Plain values -/

/-- A character that neither the shell nor a form treats specially. -/
def isPlainValue (c : Char) : Bool := Shell.isOrdinary c && Form.isPlain c && c != '#'

namespace Run

/-- The values of a run: the configuration's and the two tokens. -/
def values (r : Run) : List Text :=
  [r.configuration.openAmUri, r.configuration.openAmClientSecret, r.configuration.programMgmtUri,
   r.configuration.programMgmtTenant, r.configuration.programMgmtTenantLevel,
   r.configuration.progManUserId, r.configuration.progManPassword,
   r.configuration.testSpecBankUri, r.configuration.testSpecBankUserId,
   r.configuration.testSpecBankPassword, interpolate r.progManAccessToken,
   interpolate r.session.testSpecBankAccessToken]

def Plain (r : Run) : Prop := ∀ v ∈ r.values, v.all isPlainValue = true

end Run

theorem isPlainValue_ordinary {c : Char} (h : isPlainValue c = true) :
    Shell.isOrdinary c = true ∧ c ≠ '#' := by
  simp only [isPlainValue, Bool.and_eq_true, bne_iff_ne] at h
  exact ⟨h.1.1, h.2⟩

theorem isPlainValue_form {v : Text} (h : v.all isPlainValue = true) :
    v.all Form.isPlain = true := by
  rw [List.all_eq_true] at h ⊢
  intro c hc
  have := h c hc
  simp only [isPlainValue, Bool.and_eq_true] at this
  exact this.1.2

theorem isPlainValue_inert {v : Text} (h : v.all isPlainValue = true) :
    v.all Shell.isInert = true := by
  rw [List.all_eq_true] at h ⊢
  intro c hc
  obtain ⟨hb, -, hq, hg, hd, hend⟩ := Shell.isOrdinary_cases (isPlainValue_ordinary (h c hc)).1
  have hn : c ≠ '\n' := by
    rintro rfl
    exact absurd hend (by decide)
  simp [Shell.isInert, hq, hb, hn, hg, hd]

/-- A plain value in front of a path is one word. -/
theorem isLiteral_url {uri path : Text} (huri : uri.all isPlainValue = true)
    (hpath : Shell.isLiteral path = true) : Shell.isLiteral (uri ++ path) = true := by
  simp only [Shell.isLiteral, Bool.and_eq_true, Bool.not_eq_true', List.isEmpty_eq_false_iff,
    List.all_eq_true, bne_iff_ne] at hpath huri ⊢
  obtain ⟨⟨hne, hall⟩, hhash⟩ := hpath
  refine ⟨⟨List.append_ne_nil_of_right_ne_nil _ hne, ?_⟩, ?_⟩
  · intro c hc
    rcases List.mem_append.mp hc with hc | hc
    · exact (isPlainValue_ordinary (huri c hc)).1
    · exact hall c hc
  · cases uri with
    | nil => exact hhash
    | cons c uri =>
      intro hhead
      rw [List.cons_append, List.head?_cons, Option.some.injEq] at hhead
      exact (isPlainValue_ordinary (huri c (by simp))).2 hhead

/-! ## The commands as words -/

open Shell (Piece commandText)

theorem header_text : " --header ".toList = ' ' :: ("--header".toList ++ [' ']) := by decide

theorem oAuthWords_text :
    "curl -s --insecure -3 --data ".toList = oAuthWords.flatMap (· ++ [' ']) := by decide

theorem progManTokenUrl_pieces (c : Configuration) : progManTokenUrl c =
    commandText (oAuthWords.map .literal ++
      [.quoted (oAuthParams c c.progManUserId c.progManPassword), .literal "--header".toList,
        .quoted formHeader, .literal (oAuthAccessUrl c)]) := by
  have htext : ∀ d h p f u : Text, d ++ quoted p ++ (' ' :: (h ++ [' '])) ++ quoted f ++ ' ' :: u =
      d ++ commandText [.quoted p, .literal h, .quoted f, .literal u] := by
    intro d h p f u
    simp [Shell.commandText_cons, Piece.text, quoted]
  unfold progManTokenUrl
  rewrite [Shell.commandText_literals (by simp), oAuthWords_text, header_text]
  exact htext _ _ _ _ _

theorem testSpecBankTokenUrl_pieces (c : Configuration) : testSpecBankTokenUrl c =
    commandText (oAuthWords.map .literal ++
      [.quoted (oAuthParams c c.testSpecBankUserId c.testSpecBankPassword),
        .literal (oAuthAccessUrl c), .literal "--header".toList, .quoted formHeader]) := by
  have htext : ∀ d h p f u : Text, d ++ quoted p ++ ' ' :: u ++ (' ' :: (h ++ [' '])) ++ quoted f =
      d ++ commandText [.quoted p, .literal u, .literal h, .quoted f] := by
    intro d h p f u
    simp [Shell.commandText_cons, Piece.text, quoted]
  unfold testSpecBankTokenUrl
  rewrite [Shell.commandText_literals (by simp), oAuthWords_text, header_text]
  exact htext _ _ _ _ _

theorem insertRest_pieces (e : Session) : insertRest e = ' ' ::
    commandText [.literal (testSpecBankUrl e), .literal "--header".toList,
      .quoted (testSpecBankParams e), .literal "--header".toList,
      .quoted "Accept: application/json".toList, .literal "--header".toList,
      .quoted "Content-Type: application/json".toList] := by
  have hopen : " --header \"".toList = ' ' :: ("--header".toList ++ [' ', '"']) := by decide
  have haccept : "\" --header \"Accept: application/json\"".toList =
      '"' :: ' ' :: ("--header".toList ++
        ' ' :: '"' :: ("Accept: application/json".toList ++ ['"'])) := by
    decide
  have hcontent : " --header \"Content-Type: application/json\"".toList =
      ' ' :: ("--header".toList ++
        ' ' :: '"' :: ("Content-Type: application/json".toList ++ ['"'])) := by
    decide
  have htext : ∀ u h p a b : Text,
      u ++ (' ' :: (h ++ [' ', '"'])) ++ p ++ ('"' :: ' ' :: (h ++ ' ' :: '"' :: (a ++ ['"']))) ++
        (' ' :: (h ++ ' ' :: '"' :: (b ++ ['"']))) =
      commandText [.literal u, .literal h, .quoted p, .literal h, .quoted a, .literal h,
        .quoted b] := by
    intro u h p a b
    simp [Shell.commandText_cons, Piece.text]
  unfold insertRest
  rewrite [hopen, haccept, hcontent]
  exact congrArg (' ' :: ·) (htext _ _ _ _ _)

/-! ## The form -/

theorem oAuthParams_pairs (c : Configuration) (userId password : Text) :
    oAuthParams c userId password =
      ['&'].intercalate ((grant c userId password).map Form.pairText) := by
  have hstart : "grant_type=password&client_id=pm&client_secret=".toList =
      "grant_type".toList ++ '=' :: ("password".toList ++ '&' :: ("client_id".toList ++
        '=' :: ("pm".toList ++ '&' :: ("client_secret".toList ++ ['='])))) := by decide
  have huser : "&username=".toList = '&' :: ("username".toList ++ ['=']) := by decide
  have hpassword : "&password=".toList = '&' :: ("password".toList ++ ['=']) := by decide
  have htext : ∀ g pw ci pm cs s un u p : Text,
      (g ++ '=' :: (pw ++ '&' :: (ci ++ '=' :: (pm ++ '&' :: (cs ++ ['=']))))) ++ s ++
        ('&' :: (un ++ ['='])) ++ u ++ ('&' :: (pw ++ ['='])) ++ p =
      ['&'].intercalate ([(g, pw), (ci, pm), (cs, s), (un, u), (pw, p)].map Form.pairText) := by
    intro g pw ci pm cs s un u p
    simp [Form.pairText, List.intercalate_cons_cons]
  unfold oAuthParams grant
  rewrite [hstart, huser, hpassword]
  exact htext _ _ _ _ _ _ _ _ _

theorem decode_oAuthParams {c : Configuration} {userId password : Text}
    (hsecret : c.openAmClientSecret.all isPlainValue = true)
    (huser : userId.all isPlainValue = true) (hpassword : password.all isPlainValue = true) :
    Form.decode (oAuthParams c userId password) = grant c userId password := by
  have hnames : ∀ name ∈ ["grant_type".toList, "client_id".toList, "client_secret".toList,
      "username".toList, "password".toList],
      name.all (fun c => Form.isPlain c && c != '=') = true := by decide
  have hfixed : "password".toList.all Form.isPlain = true ∧
      "pm".toList.all Form.isPlain = true := by
    decide
  rw [oAuthParams_pairs]
  refine Form.decode_pairs (by simp [grant]) ?_
  intro p hp
  refine ⟨hnames p.1 (List.mem_map_of_mem (f := Prod.fst) hp), ?_⟩
  simp only [grant, List.mem_cons, List.not_mem_nil, or_false] at hp
  rcases hp with rfl | rfl | rfl | rfl | rfl
  · exact hfixed.1
  · exact hfixed.2
  · exact isPlainValue_form hsecret
  · exact isPlainValue_form huser
  · exact isPlainValue_form hpassword

/-! ## What is delivered, and what is not -/

theorem quotable_oAuthParams {c : Configuration} {userId password : Text}
    (hsecret : c.openAmClientSecret.all isPlainValue = true)
    (huser : userId.all isPlainValue = true) (hpassword : password.all isPlainValue = true) :
    Shell.Quotable (oAuthParams c userId password) := by
  have hfixed : "grant_type=password&client_id=pm&client_secret=".toList.all Shell.isInert = true ∧
      "&username=".toList.all Shell.isInert = true ∧
      "&password=".toList.all Shell.isInert = true := by decide
  refine Shell.quotable_of_inert ?_
  unfold oAuthParams
  simp only [List.all_append, Bool.and_eq_true]
  exact ⟨⟨⟨⟨⟨hfixed.1, isPlainValue_inert hsecret⟩, hfixed.2.1⟩, isPlainValue_inert huser⟩,
    hfixed.2.2⟩, isPlainValue_inert hpassword⟩

theorem quotable_formHeader : Shell.Quotable formHeader := by decide

theorem isLiteral_oAuthAccessUrl {c : Configuration} (h : c.openAmUri.all isPlainValue = true) :
    Shell.isLiteral (oAuthAccessUrl c) = true := isLiteral_url h (by decide)

/-- **With plain values everything but the tenant lookup is delivered.** -/
theorem plain_values_delivered (r : Run) (h : r.Plain) :
    r.ProgManTokenDelivered ∧ r.TestSpecBankTokenDelivered ∧ r.InsertDelivered := by
  have huri := isLiteral_oAuthAccessUrl (h r.configuration.openAmUri (by simp [Run.values]))
  have hsecret := h r.configuration.openAmClientSecret (by simp [Run.values])
  have hheader : (Piece.literal "--header".toList).Fits := by
    show Shell.isLiteral _ = true
    decide
  have hform : (Piece.quoted formHeader).Fits := quotable_formHeader
  have hwords : oAuthWords.all Shell.isLiteral = true := by decide
  refine ⟨⟨_, ?_, decode_oAuthParams hsecret
      (h r.configuration.progManUserId (by simp [Run.values]))
      (h r.configuration.progManPassword (by simp [Run.values]))⟩,
    ⟨_, ?_, decode_oAuthParams hsecret (h r.configuration.testSpecBankUserId (by simp [Run.values]))
    (h r.configuration.testSpecBankPassword (by simp [Run.values]))⟩, ?_⟩
  · have hparams : (Piece.quoted (oAuthParams r.configuration r.configuration.progManUserId
        r.configuration.progManPassword)).Fits :=
      quotable_oAuthParams hsecret (h r.configuration.progManUserId (by simp [Run.values]))
        (h r.configuration.progManPassword (by simp [Run.values]))
    rw [progManTokenUrl_pieces]
    refine Shell.isCommand_commandText (Shell.fits_literals hwords ?_)
    simp only [List.forall_mem_cons]
    exact ⟨hparams, hheader, hform, huri, by simp⟩
  · have hparams : (Piece.quoted (oAuthParams r.configuration r.configuration.testSpecBankUserId
        r.configuration.testSpecBankPassword)).Fits :=
      quotable_oAuthParams hsecret (h r.configuration.testSpecBankUserId (by simp [Run.values]))
        (h r.configuration.testSpecBankPassword (by simp [Run.values]))
    rw [testSpecBankTokenUrl_pieces]
    refine Shell.isCommand_commandText (Shell.fits_literals hwords ?_)
    simp only [List.forall_mem_cons]
    exact ⟨hparams, huri, hheader, hform, by simp⟩
  · have hbank : Shell.isLiteral (testSpecBankUrl r.session) = true := by
      unfold testSpecBankUrl
      rw [r.bank]
      exact isLiteral_url (h r.configuration.testSpecBankUri (by simp [Run.values])) (by decide)
    have htoken : (Piece.quoted (testSpecBankParams r.session)).Fits := by
      have hbearer : "Authorization: Bearer ".toList.all Shell.isInert = true := by decide
      have hvalue := isPlainValue_inert
        (h (interpolate r.session.testSpecBankAccessToken) (by simp [Run.values]))
      refine Shell.quotable_of_inert ?_
      unfold testSpecBankParams
      rw [List.all_append, hbearer, hvalue]
      rfl
    have hfixed : Shell.Quotable "Accept: application/json".toList ∧
        Shell.Quotable "Content-Type: application/json".toList := by decide
    unfold Run.InsertDelivered
    rw [insertRest_pieces, ← r.bank]
    refine Shell.IsCommand.blank (Shell.isCommand_commandText ?_)
    simp only [List.forall_mem_cons]
    exact ⟨hbank, hheader, htoken, hheader, hfixed.1, hheader, hfixed.2, by simp⟩

/-- **No run delivers its values: the tenant lookup never arrives.** -/
theorem never_delivered (r : Run) : ¬ r.Delivered :=
  fun h => tenant_not_delivered r h.2.1

/-- The configuration that comes with the script, and a token for each service. -/
def sampleRun : Run where
  configuration :=
    { openAmUri := "https://oam.server.name".toList
      openAmClientSecret := "oam-client-secret".toList
      programMgmtUri := "https://pm.server.name".toList
      programMgmtTenant := "state_abbrev".toList
      programMgmtTenantLevel := "STATE".toList
      progManUserId := "client-level-admin-user".toList
      progManPassword := "client-level-admin-user-password".toList
      testSpecBankUri := "https://tsb.server.name".toList
      testSpecBankUserId := "tsb-admin-user".toList
      testSpecBankPassword := "tsb-admin-user-password".toList }
  progManAccessToken := some "token".toList
  session :=
    { tenantId := none
      itemBankParam := none
      executeParam := true
      testSpecBankUri := "https://tsb.server.name".toList
      testSpecBankAccessToken := some "token".toList
      answer := fun _ => none }
  bank := rfl

/-- The sample configuration is no exception. -/
theorem sample_not_delivered : ¬ ∀ r : Run, r.Delivered :=
  fun h => tenant_not_delivered sampleRun (h sampleRun).2.1

end Package
end TdsAdmin
